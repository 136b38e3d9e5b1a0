/-
Moments read back from their ISO notation.

* `Moment.WellFormed` — the moments that ISO notation can express: a wall clock within the calendar,
  whose distance from universal time, if known, is a number of whole minutes of less than a day;
* `digitsOr_padded` — a padded number is read as that number, whatever follows;
* `leadingDate_dateChars`, `timeOf?_timeChars`, `offsetOf?_zoneChars` — the three parts of a
  notation are read one after the other;
* `momentOfText_isoText` — a well-formed moment is read back from its notation.
-/
import Mathlib.Algebra.Order.Group.Nat
import Mathlib.Algebra.Ring.Nat
import Mathlib.Tactic.Common
import Mathlib.Tactic.SplitIfs
import Cadence.Proofs.Calendar.Date
import Cadence.Proofs.Validation.Checked
import Cadence.Validation.Moment

namespace Cadence.Calendar

open Cadence.Text

/-- A moment that ISO notation can express. -/
structure Moment.WellFormed (m : Moment) : Prop where
  wall : inCalendar m.wall = true
  offset : ∀ o, m.offset = some o → o % minute = 0 ∧ -day < o ∧ o < day

/-- An instant of the calendar, as universal time shows it, is well-formed. -/
theorem Instant.toMoment_wellFormed {t : Instant} (h : inCalendar t.micros = true) :
    t.toMoment.WellFormed := by
  refine ⟨h, ?_⟩
  intro o ho
  obtain rfl : 0 = o := Option.some_inj.mp ho
  decide

/-- The instant of a moment that shows an instant is this instant. -/
theorem Instant.toInstant_toMoment {t u : Instant} (h : t.toMoment.toInstant = .ok u) : u = t := by
  have hmicros : t.micros - 0 = t.micros := Int.sub_zero _
  unfold Instant.toMoment Moment.toInstant at h
  simp only [hmicros] at h
  split at h
  · exact (Except.ok.inj h).symm
  · cases h

/-! ### Padded numbers -/

theorem isAsciiDigit_of_isDigit {c : Char} (h : c.isDigit = true) : isAsciiDigit c = true := by
  have h1 : c.val ≥ 48 ∧ c.val ≤ 57 := by simpa [Char.isDigit] using h
  have h2 : '0' ≤ c := h1.1
  have h3 : c ≤ '9' := h1.2
  simp [isAsciiDigit, h2, h3]

theorem padded_length {k n : Nat} (hk : 0 < k) (h : n < 10 ^ k) : (padded k n).length = k := by
  have hl : (Nat.toDigits 10 n).length ≤ k := (Nat.length_toDigits_le_iff (by decide) hk).mpr h
  simp only [padded, Decimal.natDigits, List.length_append, List.length_replicate]
  omega

theorem isAsciiDigit_of_mem_padded {k n : Nat} {c : Char} (h : c ∈ padded k n) :
    isAsciiDigit c = true := by
  simp only [padded, Decimal.natDigits, List.mem_append] at h
  rcases h with h | h
  · rw [List.eq_of_mem_replicate h]
    decide
  · exact isAsciiDigit_of_isDigit (Nat.isDigit_of_mem_toDigits (by decide) (by decide) h)

theorem take_padded {k n : Nat} (hk : 0 < k) (h : n < 10 ^ k) (rest : List Char) :
    (padded k n ++ rest).take k = padded k n := by
  have hlen := padded_length hk h
  rw [List.take_append_of_le_length (by omega), List.take_of_length_le (by omega)]

theorem drop_padded {k n : Nat} (hk : 0 < k) (h : n < 10 ^ k) (rest : List Char) :
    (padded k n ++ rest).drop k = rest := by
  have hlen := padded_length hk h
  rw [List.drop_append_of_le_length (by omega), List.drop_eq_nil_of_le (by omega), List.nil_append]

theorem padded_value (k n : Nat) : Nat.ofDigitChars 10 (padded k n) 0 = n := by
  rw [padded, Nat.ofDigitChars_append, Nat.ofDigitChars_replicate_zero, Nat.mul_zero]
  exact Nat.ofDigitChars_ten_toDigits

end Cadence.Calendar

namespace Cadence.Validation

open Cadence.Calendar Cadence.Text

/-- A padded number is read as that number, whatever follows. -/
theorem digitsOr_padded (flaw : DateFlaw) {k n : Nat} (hk : 0 < k) (h : n < 10 ^ k)
    (rest : List Char) :
    digitsOr flaw k (padded k n ++ rest) = .ok (n, rest) := by
  have hall : (padded k n).all isAsciiDigit = true :=
    List.all_eq_true.mpr fun c hc => isAsciiDigit_of_mem_padded hc
  simp only [digitsOr, take_padded hk h, drop_padded hk h, padded_length hk h, hall,
    decide_true, Bool.and_self, if_true]
  rw [← Nat.ofDigitChars_eq_foldl, padded_value]

theorem pairUpTo_padded {bound n : Nat} (hb : n ≤ bound) (h : n < 100) (rest : List Char) :
    pairUpTo bound (padded 2 n ++ rest) = some (n, rest) := by
  simp only [pairUpTo, digitsOr_padded .extra (show 0 < 2 by decide)
    (show n < 10 ^ 2 by omega), if_pos hb]

/-! ### Dates -/

theorem length_le_utf8ByteSize (cs : List Char) : cs.length ≤ (String.ofList cs).utf8ByteSize := by
  induction cs with
  | nil => exact Nat.zero_le _
  | cons c cs ih =>
    rw [String.ofList_cons, String.utf8ByteSize_append, String.utf8ByteSize_singleton,
      List.length_cons]
    have := c.utf8Size_pos
    omega

/-- The notation of a date. -/
def dateChars (d : Date) : List Char :=
  padded 4 d.year ++ '-' :: (padded 2 d.month ++ '-' :: padded 2 d.day)

theorem dateChars_append (d : Date) (rest : List Char) : dateChars d ++ rest =
    padded 4 d.year ++ '-' :: (padded 2 d.month ++ '-' :: (padded 2 d.day ++ rest)) := by
  simp only [dateChars, List.append_assoc, List.cons_append]

/-- The numbers of a date fit into their places. -/
theorem dateBounds {d : Date} (h : d.InCalendar) :
    d.year < 10 ^ 4 ∧ d.month < 10 ^ 2 ∧ d.day < 10 ^ 2 := by
  have h31 : daysInMonth d.year d.month ≤ 31 := by
    unfold daysInMonth
    split <;> first | (split_ifs <;> decide) | decide
  have hday := h.day_le
  exact ⟨Nat.lt_of_le_of_lt h.year_le (by decide),
    Nat.lt_of_le_of_lt h.month_le (by decide), by omega⟩

theorem length_dateChars {d : Date} (h : d.InCalendar) : (dateChars d).length = 10 := by
  obtain ⟨hy, hm, hd⟩ := dateBounds h
  simp only [dateChars, List.length_append, List.length_cons,
    padded_length (show 0 < 4 by decide) hy,
    padded_length (show 0 < 2 by decide) hm, padded_length (show 0 < 2 by decide) hd]

theorem leadingDate_dateChars {d : Date} (h : d.InCalendar) (rest : List Char) :
    leadingDate (String.ofList (dateChars d ++ rest)) = .ok (d, rest) := by
  obtain ⟨hy, hm, hd⟩ := dateBounds h
  -- a date takes ten characters, and each of them at least one byte
  have hsize : ¬ (String.ofList (dateChars d ++ rest)).utf8ByteSize < 10 := by
    have hlen : 10 ≤ (dateChars d ++ rest).length := by
      rw [List.length_append, length_dateChars h]
      omega
    have := length_le_utf8ByteSize (dateChars d ++ rest)
    omega
  have hmonth : (d.month = 0 || 12 < d.month) = false := by
    have h1 := h.month_pos
    have h2 := h.month_le
    simp only [Bool.or_eq_false_iff, decide_eq_false_iff_not]
    omega
  have hday : (d.day = 0 || daysInMonth d.year d.month < d.day) = false := by
    have h1 := h.day_pos
    have h2 := h.day_le
    simp only [Bool.or_eq_false_iff, decide_eq_false_iff_not]
    omega
  unfold leadingDate
  rw [if_neg hsize, String.toList_ofList, dateChars_append]
  simp only [digitsOr_padded .year (by decide) hy, hyphen, ok_bind,
    digitsOr_padded .month (by decide) hm, digitsOr_padded .day (by decide) hd, hmonth, hday]
  rfl

/-! ### Distances from universal time -/

/-- The notation of a distance from universal time, if it is known. -/
def zoneChars : Option Int → List Char
  | none => []
  | some o => (if o < 0 then '-' else '+') :: offsetChars o.natAbs

/-- A distance of whole minutes is written without seconds. -/
theorem offsetChars_minutes {n : Nat} (h : n % 60000000 = 0) :
    offsetChars n = padded 2 (n / 1000000 / 3600) ++ ':' :: padded 2 (n / 1000000 / 60 % 60) := by
  have hf : n % 1000000 = 0 := by omega
  have hs : n / 1000000 % 60 = 0 := by omega
  simp [offsetChars, hf, hs]

theorem offsetOf?_pair {c : Char} (hc : c = '+' ∨ c = '-') {h m : Nat} (hh : h ≤ 23) (hm : m ≤ 59) :
    offsetOf? (c :: (padded 2 h ++ ':' :: padded 2 m)) =
      some (some (if c = '+' then (h : Int) * hour + m * minute
        else -((h : Int) * hour + m * minute))) := by
  have hfirst := pairUpTo_padded hh (by omega) (':' :: padded 2 m)
  have hlast := pairUpTo_padded hm (by omega) []
  rw [List.append_nil] at hlast
  rcases hc with rfl | rfl
  · simp [offsetOf?, hfirst, hlast]
  · simp [offsetOf?, hfirst, hlast]

theorem offsetOf?_zoneChars {o : Option Int}
    (h : ∀ x, o = some x → x % minute = 0 ∧ -day < x ∧ x < day) :
    offsetOf? (zoneChars o) = some o := by
  cases o with
  | none => rfl
  | some x =>
    obtain ⟨hx, hlow, hhigh⟩ := h x rfl
    simp only [minute, second, day, hour] at hx hlow hhigh
    -- a distance of whole minutes is made up of hours and minutes alone
    have hsum : ((x.natAbs / 1000000 / 3600 : Nat) : Int) * hour +
        ((x.natAbs / 1000000 / 60 % 60 : Nat) : Int) * minute = x.natAbs := by
      simp only [hour, minute, second]
      omega
    rw [zoneChars, offsetChars_minutes (by omega), offsetOf?_pair ?_ (by omega) (by omega), hsum]
    · by_cases hneg : x < 0
      · rw [if_pos hneg, if_neg (by decide)]
        congr 2
        omega
      · rw [if_neg hneg, if_pos rfl]
        congr 2
        omega
    · by_cases hneg : x < 0
      · exact Or.inr (if_pos hneg)
      · exact Or.inl (if_neg hneg)

/-! ### Times of day -/

/-- The notation of the time of day of a wall clock. -/
def timeChars (wall : Nat) : List Char :=
  padded 2 (wall / 1000000 % 86400 / 3600) ++ ':' :: (padded 2 (wall / 1000000 % 86400 / 60 % 60) ++
    ':' :: (padded 2 (wall / 1000000 % 86400 % 60) ++
      if wall % 1000000 != 0 then '.' :: padded 6 (wall % 1000000) else []))

theorem zoneChars_head (o : Option Int) :
    ∀ c rest, zoneChars o = c :: rest → isAsciiDigit c = false ∧ c ≠ '.' := by
  intro c rest h
  cases o with
  | none => cases h
  | some x =>
    obtain ⟨rfl, _⟩ := List.cons.inj h
    split <;> decide

/-- The digits of a fraction end where the distance from universal time begins. -/
theorem takeWhile_fraction (f : Nat) (o : Option Int) :
    (padded 6 f ++ zoneChars o).takeWhile isAsciiDigit = padded 6 f ∧
      (padded 6 f ++ zoneChars o).dropWhile isAsciiDigit = zoneChars o := by
  have hdigits : ∀ c ∈ padded 6 f, isAsciiDigit c = true :=
    fun c hc => isAsciiDigit_of_mem_padded hc
  -- a distance from universal time begins with its sign, if there is one at all
  have hzone : (zoneChars o).takeWhile isAsciiDigit = [] ∧
      (zoneChars o).dropWhile isAsciiDigit = zoneChars o := by
    cases hz : zoneChars o with
    | nil => exact ⟨rfl, rfl⟩
    | cons c rest =>
      have hc := (zoneChars_head o c rest hz).1
      exact ⟨List.takeWhile_cons_of_neg (by simp [hc]), List.dropWhile_cons_of_neg (by simp [hc])⟩
  rw [List.takeWhile_append_of_pos hdigits, List.dropWhile_append_of_pos hdigits, hzone.1, hzone.2,
    List.append_nil]
  exact ⟨rfl, rfl⟩

/-- Reading a time of day without a fraction. -/
theorem timeOf?_whole {h m s : Nat} (hh : h ≤ 23) (hm : m ≤ 59) (hs : s ≤ 59) (o : Option Int) :
    timeOf? (padded 2 h ++ ':' :: (padded 2 m ++ ':' :: (padded 2 s ++ zoneChars o))) =
      (offsetOf? (zoneChars o)).map fun o => ((h : Int) * hour + m * minute + s * second, o) := by
  have hhour := pairUpTo_padded hh (by omega)
    (':' :: (padded 2 m ++ ':' :: (padded 2 s ++ zoneChars o)))
  have hminute := pairUpTo_padded hm (by omega) (':' :: (padded 2 s ++ zoneChars o))
  have hsecond := pairUpTo_padded hs (by omega) (zoneChars o)
  simp only [timeOf?, hhour, hminute, hsecond, Option.bind_eq_bind, Option.bind_some]
  split
  · next rest hz => exact absurd rfl (zoneChars_head o _ _ hz).2
  · cases offsetOf? (zoneChars o) <;> rfl

/-- Reading a time of day with a fraction of six digits. -/
theorem timeOf?_fraction {h m s f : Nat} (hh : h ≤ 23) (hm : m ≤ 59) (hs : s ≤ 59) (hf : f < 10 ^ 6)
    (o : Option Int) :
    timeOf? (padded 2 h ++ ':' ::
      (padded 2 m ++ ':' :: (padded 2 s ++ '.' :: (padded 6 f ++ zoneChars o)))) =
      (offsetOf? (zoneChars o)).map fun o =>
        ((h : Int) * hour + m * minute + s * second + f, o) := by
  have hhour := pairUpTo_padded hh (by omega)
    (':' :: (padded 2 m ++ ':' :: (padded 2 s ++ '.' :: (padded 6 f ++ zoneChars o))))
  have hminute := pairUpTo_padded hm (by omega)
    (':' :: (padded 2 s ++ '.' :: (padded 6 f ++ zoneChars o)))
  have hsecond := pairUpTo_padded hs (by omega) ('.' :: (padded 6 f ++ zoneChars o))
  have hlen := padded_length (show 0 < 6 by decide) hf
  have hsome : (padded 6 f).isEmpty = false := by
    cases hp : padded 6 f with
    | nil => rw [hp] at hlen; cases hlen
    | cons c cs => rfl
  -- six digits need no zeros behind them
  have hsix : (padded 6 f ++ List.replicate 6 '0').take 6 = padded 6 f :=
    take_padded (by decide) hf _
  obtain ⟨htake, hdrop⟩ := takeWhile_fraction f o
  simp only [timeOf?, hhour, hminute, hsecond, htake, hdrop, hsome, hsix, Option.bind_eq_bind,
    Option.bind_some, ← Nat.ofDigitChars_eq_foldl, padded_value]
  cases offsetOf? (zoneChars o) <;> rfl

theorem timeOf?_timeChars (wall : Nat) {o : Option Int}
    (h : ∀ x, o = some x → x % minute = 0 ∧ -day < x ∧ x < day) :
    timeOf? (timeChars wall ++ zoneChars o) = some (((wall % 86400000000 : Nat) : Int), o) := by
  have hsum : ((wall / 1000000 % 86400 / 3600 : Nat) : Int) * hour +
      ((wall / 1000000 % 86400 / 60 % 60 : Nat) : Int) * minute +
      ((wall / 1000000 % 86400 % 60 : Nat) : Int) * second + ((wall % 1000000 : Nat) : Int) =
        ((wall % 86400000000 : Nat) : Int) := by
    simp only [hour, minute, second]
    omega
  by_cases hf : wall % 1000000 = 0
  · rw [hf, Int.natCast_zero, Int.add_zero] at hsum
    have htext : timeChars wall ++ zoneChars o = padded 2 (wall / 1000000 % 86400 / 3600) ++
        ':' :: (padded 2 (wall / 1000000 % 86400 / 60 % 60) ++
          ':' :: (padded 2 (wall / 1000000 % 86400 % 60) ++ zoneChars o)) := by
      simp [timeChars, hf]
    rw [htext, timeOf?_whole (by omega) (by omega) (by omega), offsetOf?_zoneChars h, hsum]
    rfl
  · have htext : timeChars wall ++ zoneChars o = padded 2 (wall / 1000000 % 86400 / 3600) ++
        ':' :: (padded 2 (wall / 1000000 % 86400 / 60 % 60) ++
          ':' :: (padded 2 (wall / 1000000 % 86400 % 60) ++
            '.' :: (padded 6 (wall % 1000000) ++ zoneChars o))) := by
      simp [timeChars, hf]
    rw [htext, timeOf?_fraction (by omega) (by omega) (by omega) (by omega),
      offsetOf?_zoneChars h, hsum]
    rfl

theorem wallChars_eq (wall : Nat) :
    wallChars wall = dateChars (Date.ofDayNumber (wall / 86400000000)) ++ 'T' ::
      timeChars wall := by
  by_cases hf : wall % 1000000 = 0
  · simp [wallChars, dateChars, timeChars, hf]
  · simp [wallChars, dateChars, timeChars, hf]

theorem isoChars_eq (m : Moment) :
    m.isoChars = dateChars (Date.ofDayNumber (m.wall.toNat / 86400000000)) ++
      'T' :: (timeChars m.wall.toNat ++ zoneChars m.offset) := by
  obtain ⟨wall, offset⟩ := m
  cases offset with
  | none => simp [Moment.isoChars, wallChars_eq, zoneChars]
  | some o => simp [Moment.isoChars, wallChars_eq, zoneChars]

/-- **A well-formed moment is read back from its notation.** -/
theorem momentOfText_isoText {m : Moment} (h : m.WellFormed) : momentOfText m.isoText = .ok m := by
  have hwall := h.wall
  simp only [inCalendar, calendarMicros, dayCount_eq, day, hour, minute, second, Bool.and_eq_true,
    decide_eq_true_eq] at hwall
  have hday : m.wall.toNat / 86400000000 < dayCount := by
    rw [dayCount_eq]
    omega
  unfold momentOfText
  rw [Moment.isoText, isoChars_eq, leadingDate_dateChars (ofDayNumber_inCalendar hday)]
  have htime := timeOf?_timeChars m.wall.toNat h.offset
  have hmember : ['T', 't', ' ', '_'].contains 'T' = true := by decide
  have hsum : ((m.wall.toNat / 86400000000 : Nat) : Int) * day +
      ((m.wall.toNat % 86400000000 : Nat) : Int) = m.wall := by
    simp only [day, hour, minute, second]
    omega
  simp only [dayNumber_ofDayNumber hday, hmember, if_true, htime, hsum]

end Cadence.Validation
