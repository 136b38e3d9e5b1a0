/-
Which weekday fields are read.

An item of a field is `*`, a day or a range of two days, with a positive step or without.
The reader also passes some texts that are no items: it looks only at the first three
letters of a name, takes away blanks, does without the digits of a step, and reads a step as
any integer.

* `IsItem` — the texts of items;
* `PassesForDay`, `IsLoose` — the texts that are read without being written as days, or as items;
* `writesDay_of_weekdayNumber`, `isItem_of_partDays` — what is read and not loose is a day,
  or an item;
* `IsItem.not_loose` — no item is loose;
* `translateWeekdays_items` — a field that is read has only items just if none of its parts
  is loose, and a field without loose parts is read only if it has only items.
-/
import Mathlib.Tactic.Common
import Cadence.Proofs.Cron.Agreement
import Cadence.Proofs.Cron.WeekdayField

namespace Cadence.Cron

open Cadence.Text Cadence.Calendar

/-! ### Loose texts -/

/-- A part of a field that is written as an item: `*`, a day or a range of two days, with a
positive step or without. -/
def IsItem (part : List Char) : Prop :=
  ∃ item : WeekdayItem Day, item.Advances ∧ item.text Day.spelling = part

/-- A text that may pass for a day without being written as one: there are blanks at its
ends, or it begins with the three letters of a day but is not a name of it. -/
inductive PassesForDay (cs : List Char) : Prop where
  | blanks (ends : stripWhile isBlank cs ≠ cs)
  | tail {n : Nat} (lt : n < 7)
    (begins : String.ofList ((lower (String.ofList cs)).toList.take 3) =
    crontabDays.getD n "")
    (other : ¬ IsDayName n (lower (String.ofList cs)))

/-- The texts of the days of a part. -/
def dayTexts (part : List Char) : List (List Char) :=
  let (first, last) := cutAt '-' (cutAt '/' part).1
  first :: last.toList

/-- A part that may be read without being an item: its step is not a row of digits, or one
of its days is not written as a day. -/
inductive IsLoose (part : List Char) : Prop where
  | step {text : List Char} (follows : (cutAt '/' part).2 = some text)
    (other : ¬ (text ≠ [] ∧ ∀ c ∈ text, isDecimalDigit c = true))
  | day {text : List Char} (stands : text ∈ dayTexts part) (passes : PassesForDay text)

/-- A text without blanks at its ends that begins with the letters of no day. -/
theorem not_passesForDay {cs : List Char} (hends : stripWhile isBlank cs = cs)
    (hbegins : ∀ n < 7, String.ofList ((lower (String.ofList cs)).toList.take 3) ≠
      crontabDays.getD n "") :
    ¬ PassesForDay cs := by
  intro h
  cases h with
  | blanks hblanks => exact hblanks hends
  | tail hlt hsame _ => exact hbegins _ hlt hsame

/-! ### Days -/

/-- What is read from the first three letters of a name. -/
theorem of_position? {s : String} {n : Nat} (h : position? s crontabDays = some n) :
    n < 7 ∧ s = crontabDays.getD n "" := by
  unfold position? at h
  split at h
  · next hmem =>
    obtain rfl := Option.some.inj h
    have hlt : crontabDays.idxOf s < crontabDays.length :=
      List.idxOf_lt_length_of_mem (List.contains_iff_mem.mp hmem)
    refine ⟨hlt, ?_⟩
    rw [List.getD_eq_getElem?_getD, List.getElem?_eq_getElem hlt, List.getElem_idxOf,
      Option.getD_some]
  · cases h

/-- **What is read as a day is written as one, or only passes for it.** -/
theorem writesDay_of_weekdayNumber {cs : List Char} {n : Nat} (hread : weekdayNumber cs = .ok n)
    (h : ¬ PassesForDay cs) : WritesDay cs n := by
  have hends : stripWhile isBlank cs = cs := Decidable.of_not_not fun hends => h (.blanks hends)
  rw [weekdayNumber_eq hends] at hread
  unfold dayOfToken at hread
  split at hread
  · next hrow =>
    have hsigns : ∀ c ∈ lowerFrom [] cs, isDigitSign c = true := by
      rw [toList_lower, String.toList_ofList, Bool.and_eq_true] at hrow
      exact List.all_eq_true.mp hrow.2
    have hsigma : 'Σ' ∉ cs := fun hmem => (sigma_mem_lowerFrom hmem).elim
      (fun h => absurd (hsigns _ h) (by decide +kernel)) fun h =>
        absurd (hsigns _ h) (by decide +kernel)
    rw [lowerFrom_eq_flatMap hsigma] at hsigns
    have hlower : lower (String.ofList cs) = String.ofList (cs.flatMap lowerChars) := by
      rw [lower, String.toList_ofList, lowerFrom_eq_flatMap hsigma]
    rw [hlower] at hread
    split at hread
    · next i hi =>
      obtain ⟨m, hm, hreadable, rfl⟩ := exists_numeral hsigns hi
      -- the small letters are all digits, so the text is in lower case already
      have hsame : cs.flatMap lowerChars = cs := flatMap_lowerChars_of_forall fun c hc =>
        lowerChars_of_isDecimalDigit (forall_isDecimalDigit_of_lower (hm ▸ m.digits) c hc)
      split at hread
      · cases hread
      · next hle =>
        obtain rfl := Except.ok.inj hread
        exact .number m (hm.trans hsame) hreadable (Int.toNat_natCast _).symm (by omega)
    · cases hread
  · split at hread
    · next hposition =>
      obtain rfl := Except.ok.inj hread
      obtain ⟨hlt, hbegins⟩ := of_position? hposition
      exact .name (Decidable.of_not_not fun hother => h (.tail hlt hbegins hother))
    · cases hread

/-- What is written as a day does not only pass for one. -/
theorem WritesDay.not_passesForDay {cs : List Char} {n : Nat} (h : WritesDay cs n) :
    ¬ PassesForDay cs := by
  cases h with
  | number m htext hreadable hvalue hle =>
    have hends := (WritesDay.number m htext hreadable hvalue hle).stripWhile_eq
    refine Cron.not_passesForDay hends fun i hi hbegins => ?_
    have hletters : ∀ i < 7, (crontabDays.getD i "").toList.all (! isDecimalDigit ·) =
        true := by decide
    rw [← htext, m.lower_chars, String.toList_ofList] at hbegins
    obtain ⟨c, rest, hchars⟩ := List.exists_cons_of_ne_nil m.chars_ne
    have hfirst : c ∈ (crontabDays.getD i "").toList := by
      rw [← hbegins, hchars]
      simp
    have hdigit := List.all_eq_true.mp (hletters i hi) c hfirst
    rw [m.digits c (hchars ▸ List.mem_cons_self)] at hdigit
    cases hdigit
  | name hname =>
    intro hpasses
    cases hpasses with
    | blanks hends => exact hends (WritesDay.name hname).stripWhile_eq
    | @tail i hi hbegins hother =>
      have hshort : String.ofList ((lower (String.ofList cs)).toList.take 3) =
          crontabDays.getD n "" :=
        hname.elim (p := fun n name => String.ofList (name.toList.take 3) =
          crontabDays.getD n "") (by decide)
      obtain rfl := crontabDays_inj i hi n hname.1 (hbegins.symm.trans hshort)
      exact hother hname

/-! ### Items -/

section

variable {part base : List Char} {stepText : Option (List Char)}

/-- A row of digits that is read as a step is a positive numeral. -/
theorem exists_step {period : Nat} (hread : dayStep part stepText = .ok period)
    (h : ∀ text, stepText = some text → text ≠ [] ∧ ∀ c ∈ text, isDecimalDigit c = true) :
    ∃ step : Option Numeral, stepText = step.map Numeral.chars ∧ ∀ n, step = some n →
      n.IsReadable ∧ 0 < n.value := by
  cases stepText with
  | none => exact ⟨none, rfl, by simp⟩
  | some text =>
    obtain ⟨hne, hdigits⟩ := h text rfl
    obtain ⟨n, rfl⟩ : ∃ n : Numeral, n.chars = text := ⟨⟨text, hne, hdigits⟩, rfl⟩
    refine ⟨some n, rfl, fun m hm => ?_⟩
    obtain rfl := Option.some.inj hm
    obtain ⟨c, cs, hchars⟩ := List.exists_cons_of_ne_nil n.chars_ne
    have hinteger := n.integer?_eq
    rw [hchars] at hread
    simp only [dayStep, ← hchars, hinteger] at hread
    by_cases hlong : Decimal.maxIntegerDigits < n.chars.length
    · rw [if_pos hlong] at hread
      cases hread
    · rw [if_neg hlong] at hread
      by_cases hpos : (n.value : Int) ≤ 0
      · simp only [if_pos hpos] at hread
        cases hread
      · exact ⟨Nat.le_of_not_lt hlong, by omega⟩

/-- What stands before the step of an item is read only if it is `*`, a day or a range of
two days. -/
theorem exists_base (step : Option Numeral) {stepped : Bool} {bounds : Nat × Nat}
    (hread : dayBounds base stepped = .ok bounds)
    (h : ∀ day rest, cutAt '-' base = (day, rest) → ¬ PassesForDay day ∧
      ∀ last, rest = some last → ¬ PassesForDay last) :
    ∃ item : WeekdayItem Day, item.step = step ∧ item.base Day.spelling = base := by
  unfold dayBounds at hread
  split at hread
  · next hstar => exact ⟨.every step, rfl, (beq_iff_eq.mp hstar).symm⟩
  · rcases cutAt_cases '-' base with ⟨_, hcut⟩ | ⟨first, last, _, rfl, hcut⟩
    · obtain ⟨hday, _⟩ := h _ _ hcut
      rw [hcut] at hread
      obtain ⟨n, hn, _⟩ := bind_eq_ok.mp hread
      exact ⟨.one ⟨base, n, writesDay_of_weekdayNumber hn hday⟩ step, rfl, rfl⟩
    · obtain ⟨hfirst, hlast⟩ := h _ _ hcut
      rw [hcut] at hread
      obtain ⟨a, ha, hread⟩ := bind_eq_ok.mp hread
      obtain ⟨b, hb, _⟩ := bind_eq_ok.mp hread
      exact ⟨.range ⟨first, a, writesDay_of_weekdayNumber ha hfirst⟩
        ⟨last, b, writesDay_of_weekdayNumber hb (hlast last rfl)⟩
        step, rfl, rfl⟩

/-- **What is read as an item is one, or is loose.** -/
theorem isItem_of_partDays {days : List Nat} (hread : partDays part = .ok days)
    (h : ¬ IsLoose part) : IsItem part := by
  obtain ⟨period, hperiod, hread⟩ := bind_eq_ok.mp hread
  obtain ⟨bounds, hbounds, _⟩ := bind_eq_ok.mp hread
  obtain ⟨step, hstep, hadvances⟩ := exists_step hperiod fun text htext =>
    Decidable.of_not_not fun hother => h (.step htext hother)
  obtain ⟨item, rfl, hbase⟩ := exists_base step hbounds fun day rest hcut => by
    have htexts : dayTexts part = day :: rest.toList := by rw [dayTexts, hcut]
    constructor
    · exact fun hpasses => h (.day (htexts ▸ List.mem_cons_self) hpasses)
    · rintro last rfl
      exact fun hpasses =>
        h (.day (htexts ▸ List.mem_cons_of_mem day (List.mem_singleton_self last)) hpasses)
  refine ⟨item, hadvances, ?_⟩
  have hcut : cutAt '/' (item.text Day.spelling) = cutAt '/' part := by
    rw [WeekdayItem.cutAt_text, hbase, ← hstep]
  exact cutAt_inj hcut

/-- **No item is loose.** -/
theorem IsItem.not_loose (h : IsItem part) : ¬ IsLoose part := by
  obtain ⟨item, _, rfl⟩ := h
  intro hloose
  cases hloose with
  | step hfollows hother =>
    rw [WeekdayItem.cutAt_text] at hfollows
    obtain ⟨n, _, rfl⟩ := Option.map_eq_some_iff.mp hfollows
    exact hother ⟨n.chars_ne, n.digits⟩
  | @day text hstands hpasses =>
    rw [dayTexts, WeekdayItem.cutAt_text] at hstands
    cases item with
    | every step =>
      obtain rfl : text = ['*'] := by simpa [WeekdayItem.base, cutAt] using hstands
      exact not_passesForDay (by decide) (by decide) hpasses
    | one d step =>
      rw [WeekdayItem.base, cutAt_of_not_mem (Day.spelling.writes d).dash_not_mem] at hstands
      obtain rfl : text = Day.spelling.spell d := by simpa using hstands
      exact (Day.spelling.writes d).not_passesForDay hpasses
    | range a b step =>
      rw [WeekdayItem.base, cutAt_append (Day.spelling.writes a).dash_not_mem] at hstands
      obtain rfl | rfl : text = Day.spelling.spell a ∨
          text = Day.spelling.spell b := by simpa using hstands
      · exact (Day.spelling.writes a).not_passesForDay hpasses
      · exact (Day.spelling.writes b).not_passesForDay hpasses

/-- A part that is read is an item just if it is not loose. -/
theorem isItem_iff_of_partDays {days : List Nat} (hread : partDays part = .ok days) :
    IsItem part ↔ ¬ IsLoose part :=
  ⟨IsItem.not_loose, isItem_of_partDays hread⟩

end

/-! ### Fields -/

/-- The parts of a weekday field between its commas. -/
def fieldParts (field : String) : List (List Char) := splitChars ',' field.toList

/-- Each part of a field that is read is read. -/
theorem exists_of_translateWeekdays {field names : String}
    (hdigit : ∃ c ∈ field.toList, isDigitSign c = true)
    (h : translateWeekdays field = .ok names) :
    ∀ part ∈ fieldParts field, ∃ days, partDays part = .ok days := by
  intro part hpart
  rw [translateWeekdays_of_digit hdigit] at h
  cases hset : weekdaySet field.toList with
  | error e =>
    rw [hset] at h
    cases h
  | ok days =>
    obtain ⟨parts, hparts, _⟩ := bind_eq_ok.mp hset
    obtain ⟨partDays, _, hread⟩ := exists_of_mapM_eq_ok hparts hpart
    exact ⟨partDays, hread⟩

/-- **Only items are read, and loose texts.** A weekday field with a digit that is read
consists of items just if none of its parts is loose.  If none is loose and one is no item,
the field is refused, and a flow with this field in its schedule is never due, with a
warning. -/
theorem translateWeekdays_items {field : String}
    (hdigit : ∃ c ∈ field.toList, isDigitSign c = true) :
    (∀ names, translateWeekdays field = .ok names →
      ((∀ part ∈ fieldParts field, IsItem part) ↔ ∀ part ∈ fieldParts field, ¬ IsLoose part)) ∧
    ((∀ part ∈ fieldParts field, ¬ IsLoose part) → (∃ part ∈ fieldParts field, ¬ IsItem part) →
      ∃ fault, translateWeekdays field = .error fault ∧
        ∀ expression f, Fields.split expression = .ok f → f.weekday = field →
        NeverDue expression) := by
  constructor
  · intro names hread
    have hparts := exists_of_translateWeekdays hdigit hread
    refine forall₂_congr fun part hpart => ?_
    obtain ⟨days, hdays⟩ := hparts part hpart
    exact isItem_iff_of_partDays hdays
  · rintro hloose ⟨part, hpart, hother⟩
    cases hread : translateWeekdays field with
    | ok names =>
      obtain ⟨days, hdays⟩ := exists_of_translateWeekdays hdigit hread part hpart
      exact absurd (isItem_of_partDays hdays (hloose part hpart)) hother
    | error fault =>
      refine ⟨fault, rfl, ?_⟩
      rintro expression f hsplit rfl
      exact neverDue_of_parse (Schedule.parse_of_translateWeekdays hsplit hread)

/-- A name that is none is refused, and its flow never runs; a name that something follows
is read, and the flow runs on that day. -/
theorem translateWeekdays_items_names :
    let monday : Moment := ⟨dayNumber ⟨2025, 1, 6⟩ * day + 12 * hour, none⟩
    ((∃ fault, translateWeekdays "1,xyz" = .error fault) ∧
      ∃ g, isDueAt "* * * * 1,xyz" none monday = .ok ⟨false, some g⟩) ∧
    translateWeekdays "mon#2" = .ok "mon" ∧ ¬ IsItem "mon#2".toList ∧
      isDueAt "* * * * mon#2" none monday = .ok ⟨true, none⟩ := by
  intro monday
  have hparts : fieldParts "1,xyz" = [['1'], ['x', 'y', 'z']] := by decide
  constructor
  · obtain ⟨_, hrefused⟩ := @translateWeekdays_items "1,xyz" ⟨'1', by decide, by decide⟩
    have hone : IsItem ['1'] :=
      ⟨.one (.digit 1 (by decide)) none, by simp [WeekdayItem.Advances, WeekdayItem.step],
      by decide⟩
    have hname : ¬ IsLoose ['x', 'y', 'z'] := by
      intro hloose
      cases hloose with
      | step hfollows _ => cases hfollows
      | day hstands hpasses =>
        obtain rfl := List.mem_singleton.mp hstands
        exact not_passesForDay (by decide) (by decide) hpasses
    have hother : ¬ IsItem ['x', 'y', 'z'] := by
      rintro ⟨item, hadvances, htext⟩
      have hread : partDays ['x', 'y', 'z'] = .error (.weekdayName "xyz") := by decide +kernel
      rw [← htext] at hread
      by_cases hreversed : item.Reversed Day.spelling
      · rw [WeekdayItem.partDays_of_reversed hadvances hreversed] at hread
        cases hread
      · obtain ⟨days, hdays, _⟩ := WeekdayItem.partDays_of_not_reversed hadvances hreversed
        rw [hdays] at hread
        cases hread
    obtain ⟨fault, hfault, hnever⟩ := hrefused (by simpa [hparts] using ⟨hone.not_loose, hname⟩)
      ⟨['x', 'y', 'z'], by simp [hparts], hother⟩
    have hsplit : Fields.split "* * * * 1,xyz" = .ok ⟨"*", "*", "*", "*", "1,xyz"⟩ := by
      decide +kernel
    exact ⟨⟨fault, hfault⟩,
      (hnever _ _ hsplit rfl monday (by decide +kernel)).2 (by decide +kernel)⟩
  · obtain ⟨hread, _⟩ := @translateWeekdays_items "mon#2" ⟨'2', by decide, by decide⟩
    have hmonday : translateWeekdays "mon#2" = .ok "mon" := by decide +kernel
    refine ⟨hmonday, fun hitem => ?_, by decide +kernel⟩
    have hpasses : PassesForDay "mon#2".toList :=
      .tail (show 1 < 7 by decide) (by decide) (by decide)
    have hloose : IsLoose "mon#2".toList := .day (by decide) hpasses
    have hsingle : fieldParts "mon#2" = ["mon#2".toList] := by decide
    exact (hread _ hmonday).mp (by simpa [hsingle] using hitem) _
      (by rw [hsingle]; exact List.mem_singleton_self _) hloose

end Cadence.Cron
