/-
Texts that write moments.

* `digits?_lt`, `fraction?_lt`, `clock?_lt` — digits, fractions of a second and times keep
  within their bounds;
* `assemble_inCalendar` — so what is put together of a date and a time shows a time of the calendar;
* `date?_ends`, `Moment.parse_naive_ends` — a text that tells no distance from universal
  time does not end with a `Z`;
* `Instant.parse_inCalendar` — a text that is read as an instant writes an instant of the calendar.
-/
import Mathlib.Algebra.Order.Group.Nat
import Mathlib.Algebra.Ring.Nat
import Mathlib.Data.List.Basic
import Mathlib.Data.List.TakeWhile
import Mathlib.Tactic.SplitIfs
import Cadence.Calendar.Iso
import Cadence.Proofs.Calendar.Instant
import Cadence.Proofs.Calendar.Month
import Cadence.Proofs.Text.Parts

namespace Cadence.Calendar

open Cadence.Text

/-! ### Digits -/

/-- A row of digits that is read stands at the beginning. -/
theorem digits?_some {n v : Nat} {cs rest : List Char} (h : digits? n cs = some (v, rest)) :
    ∃ ds, cs = ds ++ rest ∧ ds.length = n ∧ ∀ c ∈ ds, isAsciiDigit c = true := by
  unfold digits? at h
  extract_lets ds at h
  split at h
  · next hrow =>
    rw [Bool.and_eq_true, beq_iff_eq, List.all_eq_true] at hrow
    obtain ⟨_, rfl⟩ := Prod.mk.inj (Option.some_inj.mp h)
    exact ⟨ds, (List.take_append_drop n cs).symm, hrow⟩
  · cases h

theorem digits?_rest {n v : Nat} {cs rest : List Char} (h : digits? n cs = some (v, rest)) :
    rest <:+ cs ∧ cs.length = n + rest.length := by
  obtain ⟨ds, rfl, hlength, _⟩ := digits?_some h
  exact ⟨List.suffix_append ds rest, by rw [List.length_append, hlength]⟩

/-- A row of digits has a value of no more digits. -/
theorem digits?_lt {n v : Nat} {cs rest : List Char}
    (h : digits? n cs = some (v, rest)) : v < 10 ^ n := by
  unfold digits? at h
  extract_lets ds at h
  split at h
  · next hrow =>
    rw [Bool.and_eq_true, beq_iff_eq, List.all_eq_true] at hrow
    obtain ⟨hlength, hdigits⟩ := hrow
    obtain ⟨rfl, _⟩ := Prod.mk.inj (Option.some_inj.mp h)
    simpa [hlength] using foldl_digits_lt hdigits 0
  · cases h

/-- A fraction of a second is less than a second. -/
theorem fraction?_lt {next : Char} {cs : List Char} {v : Nat} {more : Bool}
    (h : fraction? next cs = some (v, more)) :
    v < 1000000 := by
  unfold fraction? at h
  simp only [Option.bind_eq_bind, Option.bind_eq_some_iff] at h
  obtain ⟨⟨w, rest⟩, hdigits, hv⟩ := h
  obtain ⟨rfl, _⟩ := Prod.mk.inj (Option.some_inj.mp hv)
  have hw := digits?_lt hdigits
  have hn : min 6 cs.length ≤ 6 := Nat.min_le_left _ _
  calc w * 10 ^ (6 - min 6 cs.length) < 10 ^ min 6 cs.length * 10 ^ (6 - min 6 cs.length) :=
        Nat.mul_lt_mul_of_pos_right hw (Nat.pow_pos (by decide))
    _ = 10 ^ 6 := by rw [← Nat.pow_add, Nat.add_sub_cancel' hn]

theorem clockFields_lt {colons : Bool} {next : Char} {n : Nat} {fields fields' : List Nat}
    {cs : List Char} {v : Nat} {more : Bool}
    (h : clockFields colons next n fields cs = some (fields', v, more)) : v < 1000000 := by
  induction n generalizing colons fields cs with
  | zero =>
    rw [clockFields, Option.map_eq_some_iff] at h
    obtain ⟨⟨w, m⟩, hfraction, heq⟩ := h
    cases heq
    exact fraction?_lt hfraction
  | succ n ih =>
    unfold clockFields at h
    simp only [Option.bind_eq_bind, Option.bind_eq_some_iff] at h
    obtain ⟨⟨w, rest⟩, _, h⟩ := h
    generalize (if ((fields ++ [(w, rest).fst]).length == 1) = true
      then (w, rest).snd.headD next == ':'
      else colons) = colons' at h
    -- the time ends here, goes on after a colon, has a fraction, goes on at once, or is no time
    split at h
    · cases h
      decide
    · split at h
      · exact ih h
      · split at h
        · rw [Option.map_eq_some_iff] at h
          obtain ⟨⟨w, m⟩, hfraction, heq⟩ := h
          cases heq
          exact fraction?_lt hfraction
        · split at h
          · exact ih h
          · cases h

theorem clock?_lt {next : Char} {cs : List Char} {c : Clock} (h : clock? next cs = some c) :
    c.micros < 1000000 := by
  unfold clock? at h
  simp only [Option.bind_eq_bind, Option.bind_eq_some_iff] at h
  obtain ⟨⟨fields, micros, more⟩, hfields, hc⟩ := h
  obtain rfl := Option.some_inj.mp hc
  exact clockFields_lt hfields

theorem timeAndOffset?_lt {cs : List Char} {c : Clock} {offset : Option Int}
    (h : timeAndOffset? cs = some (c, offset)) : c.micros < 1000000 := by
  unfold timeAndOffset? at h
  extract_lets time at h
  split at h
  · simp only [Option.bind_eq_bind, Option.bind_eq_some_iff] at h
    obtain ⟨c', hc, h⟩ := h
    split_ifs at h
    cases h
    exact clock?_lt hc
  · simp only [Option.bind_eq_bind, Option.bind_eq_some_iff] at h
    obtain ⟨c', hc, h⟩ := h
    have hsame : c' = c := by
      split at h
      · split_ifs at h
        exact (Prod.mk.inj (Option.some_inj.mp h)).1
      · obtain ⟨o, _, h⟩ := Option.bind_eq_some_iff.mp h
        split at h
        · cases h
        · exact (Prod.mk.inj (Option.some_inj.mp h)).1
    exact hsame ▸ clock?_lt hc

/-! ### Moments -/

/-- What is put together shows a time of the calendar. -/
theorem assemble_inCalendar {d : Date} {c : Clock} {offset : Option Int} {m : Moment}
    (hmicros : c.micros < 1000000) (h : assemble d c offset = .ok m) :
    inCalendar m.wall = true := by
  unfold assemble at h
  split_ifs at h with hoffset hyear hmonth hday hhour hminute hsecond
  obtain rfl := Except.ok.inj h
  simp only [Bool.or_eq_true, beq_iff_eq, decide_eq_true_eq, not_or, Nat.not_lt]
    at hyear hmonth hday
  have hd : d.InCalendar := ⟨by omega, by omega, by omega, by omega, by omega, by omega⟩
  have hcount := hd.dayNumber_lt_dayCount
  rw [inCalendar_iff]
  simp only [Clock.total, calendarMicros, Calendar.day, Calendar.hour, Calendar.minute,
    Calendar.second]
  omega

/-- The parts of a text keep within their bounds. -/
theorem momentParts?_lt {cs : List Char} {d : Date} {c : Clock} {offset : Option Int}
    (h : momentParts? cs = some (d, c, offset)) : c.micros < 1000000 := by
  unfold momentParts? at h
  split at h
  · cases h
  · simp only [Option.bind_eq_bind, Option.bind_eq_some_iff] at h
    obtain ⟨place, _, date, _, h⟩ := h
    split at h
    · cases h
      decide
    · simp only [Option.bind_eq_some_iff] at h
      obtain ⟨⟨c', o⟩, htime, h⟩ := h
      cases h
      exact timeAndOffset?_lt htime

/-! ### Moments of unknown distance -/

theorem charAt_append {front : List Char} {k : Nat} (h : front.length = k) (i : Nat)
    (rest : List Char) :
    charAt (front ++ rest) (k + i) = charAt rest i := by
  rw [charAt, List.getElem?_append_right (by omega), h, Nat.add_sub_cancel_left, charAt]

/-- A text whose last part is a row of digits ends with a digit. -/
theorem getLast?_digits {n v : Nat} {cs part rest : List Char} (hpart : part <:+ cs)
    (hread : digits? (n + 1) part = some (v, rest)) (hrest : rest.length = 0) :
    ∀ c ∈ cs.getLast?, isAsciiDigit c = true := by
  obtain ⟨front, rfl⟩ := hpart
  obtain ⟨ds, rfl, hlength, hdigits⟩ := digits?_some hread
  have hne : ds ≠ [] := by
    rintro rfl
    cases hlength
  rw [List.length_eq_zero_iff.mp hrest, List.append_nil, List.getLast?_append_of_ne_nil _ hne]
  exact fun c hc => hdigits c (List.mem_of_getLast? hc)

/-- The date of a text has eight characters at most, and ten with hyphens. -/
theorem datePlace_le {cs : List Char} {place : Nat} (h : datePlace cs = some place) :
    place ≤ 8 + 2 * (charAt cs 4 == '-').toNat := by
  unfold datePlace at h
  simp only [beq_iff_eq] at h
  by_cases hhyphen : charAt cs 4 = '-'
  · simp only [hhyphen, if_true, beq_self_eq_true, Bool.toNat_true] at h ⊢
    split_ifs at h <;> grind
  · simp only [hhyphen, if_false] at h
    split_ifs at h <;> grind

theorem drop_hyphen (hyphens : Bool) (cs : List Char) :
    (if hyphens = true then cs.drop 1 else cs) = cs.drop hyphens.toNat := by
  cases hyphens <;> rfl

/-- A text that is taken up by its date ends with a digit: the last one of the day or of the
week. -/
theorem date?_ends {cs : List Char} {place : Nat} {d : Date}
    (hplace : datePlace cs = some place) (hd : date? place cs = some d)
    (hlen : cs.length ≤ place) : ∀ c ∈ cs.getLast?, isAsciiDigit c = true := by
  have hbound := datePlace_le hplace
  simp only [date?, drop_hyphen, Option.bind_eq_bind, Option.bind_eq_some_iff, Prod.exists] at hd
  obtain ⟨y, rest, hyear, hd⟩ := hd
  obtain ⟨hrest, hcount⟩ := digits?_rest hyear
  have hfour : charAt cs 4 = charAt rest 0 := by
    obtain ⟨year, rfl, hlength, _⟩ := digits?_some hyear
    exact charAt_append hlength 0 rest
  rw [hfour] at hbound
  generalize (charAt rest 0 == '-') = hyphens at *
  have hpart : rest.drop hyphens.toNat <:+ cs := (List.drop_suffix _ rest).trans hrest
  split at hd
  · -- a week, and a day of the week if there is room
    simp only [Option.bind_eq_some_iff, Prod.exists] at hd
    obtain ⟨week, left, hread, hd⟩ := hd
    obtain ⟨hleft, hweek⟩ := digits?_rest hread
    have hpart := (List.drop_suffix 1 _).trans hpart
    simp only [List.length_drop] at hweek
    split at hd
    · split at hd
      · cases hd
      · simp only [Option.bind_eq_some_iff, Prod.exists] at hd
        obtain ⟨weekday, more, hlast, _⟩ := hd
        have hday := (digits?_rest hlast).2
        rw [List.length_drop] at hday
        exact getLast?_digits ((List.drop_suffix _ left).trans (hleft.trans hpart)) hlast (by omega)
    · exact getLast?_digits hpart hread (by omega)
  · -- a month and a day
    simp only [Option.bind_eq_some_iff, Prod.exists] at hd
    obtain ⟨month, left, hread, hd⟩ := hd
    obtain ⟨hleft, hmonth⟩ := digits?_rest hread
    split at hd
    · cases hd
    · simp only [Option.bind_eq_some_iff, Prod.exists] at hd
      obtain ⟨day, more, hlast, hd⟩ := hd
      have hday := (digits?_rest hlast).2
      split at hd
      · next hexact =>
        rw [beq_iff_eq] at hexact
        exact getLast?_digits ((List.drop_suffix _ left).trans (hleft.trans hpart)) hlast (by omega)
      · cases hd

/-- No time of day is read from nothing. -/
theorem clock?_nil (next : Char) : clock? next [] = none := rfl

/-- A time of unknown distance does not end with a `Z`, and there is one. -/
theorem timeAndOffset?_naive {cs : List Char} {c : Clock} (h : timeAndOffset? cs = some (c, none)) :
    cs ≠ [] ∧ 'Z' ∉ cs := by
  unfold timeAndOffset? at h
  extract_lets time at h
  simp only [Option.bind_eq_bind] at h
  split at h
  · next hnone =>
    constructor
    · rintro rfl
      simp [time, clock?_nil] at h
    · intro hz
      have hsign := List.dropWhile_eq_nil_iff.mp hnone 'Z' hz
      exact absurd hsign (by decide)
  · obtain ⟨c', _, h⟩ := Option.bind_eq_some_iff.mp h
    split at h
    · split at h <;> simp at h
    · obtain ⟨o, _, h⟩ := Option.bind_eq_some_iff.mp h
      split at h <;> simp at h

/-- What is read as a moment of unknown distance does not end with a `Z`. -/
theorem momentParts?_naive {cs : List Char} {d : Date} {c : Clock}
    (h : momentParts? cs = some (d, c, none)) :
    cs.getLast? ≠ some 'Z' := by
  intro hz
  unfold momentParts? at h
  split at h
  · cases h
  · simp only [Option.bind_eq_bind, Option.bind_eq_some_iff] at h
    obtain ⟨place, hplace, d', hd, h⟩ := h
    split at h
    · next hlen => exact absurd (date?_ends hplace hd hlen 'Z' hz) (by decide)
    · simp only [Option.bind_eq_some_iff, Prod.exists] at h
      obtain ⟨c', o, htime, heq⟩ := h
      obtain ⟨_, _, rfl⟩ : d' = d ∧ c' = c ∧ o = none := by simpa using heq
      obtain ⟨hne, hnot⟩ := timeAndOffset?_naive htime
      rw [← List.take_append_drop (place + 1) cs, List.getLast?_append_of_ne_nil _ hne] at hz
      exact hnot (List.mem_of_getLast? hz)

theorem Moment.parse_naive_ends {s : String} {wall : Int} (h : Moment.parse s = .ok ⟨wall, none⟩) :
    s.toList.getLast? ≠ some 'Z' := by
  unfold Moment.parse at h
  split at h
  · cases h
  · next d c o hparts =>
    have ho : o = none := by
      unfold assemble at h
      split_ifs at h
      exact congrArg Moment.offset (Except.ok.inj h)
    subst ho
    exact momentParts?_naive hparts

/-! ### Instants -/

/-- A text that is read as an instant writes an instant of the calendar. -/
theorem Instant.parse_inCalendar {s : String} {t : Instant} (h : Instant.parse s = .ok t) :
    inCalendar t.micros = true := by
  unfold Instant.parse at h
  cases hparse : Moment.parse (String.ofList (spellZulu (stripWhile isBlank s.toList))) with
  | error e => rw [hparse] at h; cases h
  | ok m =>
    rw [hparse] at h
    replace h : m.toInstant.mapError InstantFault.range = .ok t := h
    have hwall : inCalendar m.wall = true := by
      unfold Moment.parse at hparse
      split at hparse
      · cases hparse
      · next hparts => exact assemble_inCalendar (momentParts?_lt hparts) hparse
    rw [Moment.toInstant_eq hwall] at h
    split at h
    · next hutc => exact Except.ok.inj h ▸ hutc
    · cases h

end Cadence.Calendar
