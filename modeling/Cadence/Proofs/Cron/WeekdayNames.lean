/-
Names of weekdays in place of their numbers.

A list of days and of ranges that do not start after their end can be written with the
numbers of the days, from 0 for Sunday to 6 for Saturday, or with their names.  Names
without any digit beside them are read by another reader, for which the week begins on
Monday, so that a range from Sunday to a later day is reversed.

* `byNumber`, `byName` — the two spellings;
* `IsOrdered`, `FromSunday` — the items in question, and the ranges from Sunday on;
* `translateWeekdays_alike` — with a step in some item, both spellings are translated alike;
* `read_byName_of_not_fromSunday`, `read_byName_of_fromSunday` — what is read from names
  without digits;
* `names_for_numbers` — the two spellings agree just if some item has a step or no item is a
  range from Sunday to a later day; otherwise the flow of the names is never due.
-/
import Mathlib.Tactic.Common
import Cadence.Proofs.Cron.Agreement
import Cadence.Proofs.Cron.WeekdayField

namespace Cadence.Cron

open Cadence.Text Cadence.Calendar

/-! ### Two spellings -/

/-- Days by number, Sunday being 0. -/
def byNumber : Spelling (Fin 7) where
  spell d := (digitNumeral d (by omega)).chars
  number d := d
  writes d := .number (digitNumeral d (by omega)) rfl (digitNumeral_isReadable _)
    (digitNumeral_value _) (by omega)

/-- Days by name. -/
def byName : Spelling (Fin 7) where
  spell d := (crontabDays.getD d "").toList
  number d := d
  writes d := .name ⟨d.isLt, Or.inl (by revert d; decide)⟩

namespace WeekdayItem

variable {item : WeekdayItem (Fin 7)}

/-- A single day, or a range that does not start after its end, Sunday being the first day
of the week. -/
def IsOrdered : WeekdayItem (Fin 7) → Prop
  | .every _ => False
  | .one _ _ => True
  | .range first last _ => first ≤ last

/-- A range from Sunday to a later day. -/
def FromSunday : WeekdayItem (Fin 7) → Prop
  | .range first last _ => first = 0 ∧ 0 < last
  | _ => False

instance : DecidablePred FromSunday
  | .every _ | .one _ _ => inferInstanceAs (Decidable False)
  | .range _ _ _ => inferInstanceAs (Decidable (_ ∧ _))

theorem IsOrdered.not_reversed (h : item.IsOrdered) : ¬ item.Reversed byNumber := by
  cases item with
  | every step => exact h.elim
  | one d step =>
    cases step with
    | none => exact id
    | some n =>
      show ¬ (d : Nat) = 7
      omega
  | range a b step =>
    have hle : (a : Nat) ≤ b := h
    show ¬ rangeEnd a b < a
    unfold rangeEnd
    split <;> omega

/-- A day or a range begins with a day. -/
theorem IsOrdered.exists_day (h : item.IsOrdered) (w : Spelling (Fin 7)) :
    ∃ d rest, item.text w = w.spell d ++ rest := by
  obtain ⟨d, more, hbase⟩ : ∃ d more, item.base w = w.spell d ++ more := by
    cases item with
    | every step => exact h.elim
    | one d step => exact ⟨d, [], (List.append_nil _).symm⟩
    | range a b step => exact ⟨a, '-' :: w.spell b, rfl⟩
  unfold text
  split
  · exact ⟨d, more, hbase⟩
  · next n _ => exact ⟨d, more ++ '/' :: n.chars, by rw [hbase, List.append_assoc]⟩

/-- The days of an item do not depend on the spelling. -/
theorem bounds_byName : item.bounds byName = item.bounds byNumber := by
  cases item with
  | every step => rfl
  | one d step => cases step <;> rfl
  | range a b step => rfl

end WeekdayItem

variable {items : List (WeekdayItem (Fin 7))}

/-! ### Texts of fields -/

/-- A list of days and ranges leaves some days out on purpose. -/
theorem isRestricted_fieldText (w : Spelling (Fin 7)) (hne : items ≠ [])
    (hordered : ∀ item ∈ items, item.IsOrdered) :
    isRestricted (fieldText w items) = true := by
  obtain ⟨item, items, rfl⟩ := List.exists_cons_of_ne_nil hne
  obtain ⟨d, rest, hbegins⟩ : ∃ d rest, (fieldText w (item :: items)).toList =
      w.spell d ++ rest := by
    obtain ⟨rest, hrest⟩ := exists_intercalate_cons (item.text w) (items.map (·.text w))
    obtain ⟨d, more, hmore⟩ := (hordered item List.mem_cons_self).exists_day w
    exact ⟨d, more ++ rest, by
      rw [fieldText, String.toList_ofList, List.map_cons, hrest, hmore, List.append_assoc]⟩
  obtain ⟨c, cs, hspell⟩ := List.exists_cons_of_ne_nil (w.writes d).ne_nil
  have hstar : c ≠ '*' := fun h => (w.writes d).star_not_mem (by simp [hspell, h])
  have hquestion : c ≠ '?' := fun h => (w.writes d).question_not_mem (by simp [hspell, h])
  simp [isRestricted, hbegins, hspell, hstar, hquestion]

/-- A step has a digit. -/
theorem exists_digit_of_step (w : Spelling (Fin 7)) (h : ∃ item ∈ items, item.step ≠ none) :
    ∃ c ∈ (fieldText w items).toList, isDigitSign c = true := by
  obtain ⟨item, hitem, hstep⟩ := h
  obtain ⟨n, hn⟩ := Option.ne_none_iff_exists'.mp hstep
  obtain ⟨c, cs, hchars⟩ := List.exists_cons_of_ne_nil n.chars_ne
  have hc : c ∈ n.chars := hchars ▸ List.mem_cons_self
  exact ⟨c, mem_fieldText.mpr (Or.inr ⟨item, hitem, by simp [WeekdayItem.text, hn, hc]⟩),
    n.isDigitSign hc⟩

/-- A number has a digit. -/
theorem exists_digit_byNumber (hne : items ≠ []) (hordered : ∀ item ∈ items, item.IsOrdered) :
    ∃ c ∈ (fieldText byNumber items).toList, isDigitSign c = true := by
  obtain ⟨item, hitem⟩ := List.exists_mem_of_ne_nil items hne
  obtain ⟨d, rest, htext⟩ := (hordered item hitem).exists_day byNumber
  have hdigit : ∀ d, (byNumber.spell d).any isDigitSign = true := by decide
  obtain ⟨c, hc, hsign⟩ := List.any_eq_true.mp (hdigit d)
  exact ⟨c, mem_fieldText.mpr (Or.inr ⟨item, hitem, htext ▸ List.mem_append_left _ hc⟩), hsign⟩

/-- Names have no digit and no capital letter. -/
theorem lowerChars_spell_byName (d : Fin 7) :
    ∀ c ∈ byName.spell d, lowerChars c = [c] ∧ isDigitSign c = false := by
  have hnames : ∀ d, (byName.spell d).all (fun c => lowerChars c == [c] && ! isDigitSign c) =
      true := by decide +kernel
  simpa using List.all_eq_true.mp (hnames d)

/-- Without a step, a field in names has no digit and no capital letter. -/
theorem lowerChars_byName (h : ∀ item ∈ items, item.step = none) :
    ∀ c ∈ (fieldText byName items).toList, lowerChars c = [c] ∧ isDigitSign c = false := by
  intro c hc
  rcases mem_fieldText.mp hc with ⟨rfl, _⟩ | ⟨item, hitem, hc⟩
  · decide
  · simp only [WeekdayItem.text, h item hitem] at hc
    cases item with
    | every step =>
      obtain rfl := List.mem_singleton.mp hc
      decide
    | one d step => exact lowerChars_spell_byName d c hc
    | range a b step =>
      rcases List.mem_append.mp hc with hc | hc
      · exact lowerChars_spell_byName a c hc
      · rcases List.mem_cons.mp hc with rfl | hc
        · decide
        · exact lowerChars_spell_byName b c hc

/-! ### Fields with a step -/

/-- Two steps are read alike, whatever part of the field they stand in. -/
theorem dayStep_alike (part other : List Char) (text : Option (List Char)) :
    (dayStep part text).mapError Fault.unquoted = (dayStep other text).mapError Fault.unquoted := by
  unfold dayStep
  split
  · rfl
  · rfl
  · split
    · split <;> rfl
    · rfl

/-- An item is read alike in both spellings. -/
theorem partDays_alike {item : WeekdayItem (Fin 7)} (h : item.IsOrdered) :
    (partDays (item.text byNumber)).mapError Fault.unquoted =
      (partDays (item.text byName)).mapError Fault.unquoted := by
  have hproper : ¬ (item.bounds byNumber).2 < (item.bounds byNumber).1 := fun hreversed =>
    h.not_reversed (WeekdayItem.reversed_iff.mpr hreversed)
  simp only [WeekdayItem.partDays_text, WeekdayItem.bounds_byName, if_neg hproper, mapError_bind]
  rw [dayStep_alike (item.text byNumber) (item.text byName)]

/-- **Fields that both have a digit are translated alike.** -/
theorem translateWeekdays_alike (hne : items ≠ []) (hordered : ∀ item ∈ items, item.IsOrdered)
    (hnumbers : ∃ c ∈ (fieldText byNumber items).toList, isDigitSign c = true)
    (hnames : ∃ c ∈ (fieldText byName items).toList, isDigitSign c = true) :
    (translateWeekdays (fieldText byNumber items)).mapError Fault.unquoted =
      (translateWeekdays (fieldText byName items)).mapError Fault.unquoted := by
  have hread : (weekdaySet (fieldText byNumber items).toList).mapError Fault.unquoted =
      (weekdaySet (fieldText byName items).toList).mapError Fault.unquoted := by
    rw [weekdaySet_eq hne, weekdaySet_eq hne, mapError_bind, mapError_bind, mapError_mapM,
      mapError_mapM, mapM_congr fun item hitem => partDays_alike (hordered item hitem)]
  rw [translateWeekdays_of_digit hnumbers, translateWeekdays_of_digit hnames, mapError_map,
    mapError_map, hread]

/-! ### Fields without a step -/

/-- What is read from the name of a day or from a range of names, Monday being 0. -/
def WeekdayItem.fromMonday : WeekdayItem (Fin 7) → Item
  | .every _ => .every none
  | .one d _ => .range ((d + 6 : Nat) % 7) (some ((d + 6 : Nat) % 7)) none
  | .range first last _ => .range ((first + 6 : Nat) % 7) (some ((last + 6 : Nat) % 7)) none

/-- An item in names is read from Monday on, and refused if that reverses it. -/
theorem Item.parse_byName {item : WeekdayItem (Fin 7)} (h : item.IsOrdered)
    (hstep : item.step = none) :
    Item.parse .weekday (String.ofList (item.text byName)) =
      if item.FromSunday then .error .reversed else .ok item.fromMonday := by
  cases item with
  | every step => exact h.elim
  | one d step =>
    obtain rfl : step = none := hstep
    clear h
    revert d
    decide +kernel
  | range a b step =>
    obtain rfl : step = none := hstep
    have hall : ∀ a b : Fin 7, a ≤ b →
      Item.parse .weekday (String.ofList ((WeekdayItem.range a b none).text byName)) =
      if (WeekdayItem.range a b none).FromSunday then .error .reversed else
        .ok (WeekdayItem.range a b none).fromMonday := by decide +kernel
    exact hall a b h

/-- Read from Monday on, an item that does not begin on Sunday has its days. -/
theorem has_fromMonday {item : WeekdayItem (Fin 7)} (h : item.IsOrdered) (hstep : item.step = none)
    (hsunday : ¬ item.FromSunday) {i : Nat} (hi : i < 7) :
    item.fromMonday.Has 0 6 i ↔ item.Covers byNumber ((i + 1) % 7) := by
  cases item with
  | every step => exact h.elim
  | one d step =>
    obtain rfl : step = none := hstep
    show (∃ k, i = max 0 ((d + 6 : Nat) % 7) + k * 1 ∧ i ≤ 6 ∧ i ≤ (d + 6 : Nat) % 7) ↔
      (i + 1) % 7 = (d : Nat) % 7
    constructor
    · rintro ⟨k, hk⟩
      omega
    · intro hd
      exact ⟨0, by omega⟩
  | range a b step =>
    obtain rfl : step = none := hstep
    have hle : (a : Nat) ≤ b := h
    have hlater : (a : Nat) = 0 → (b : Nat) = 0 := fun ha => by
      by_contra hb
      exact hsunday ⟨Fin.ext ha, Fin.lt_def.mpr (Nat.pos_of_ne_zero hb)⟩
    have hend : WeekdayItem.rangeEnd a b = b := if_neg (by omega)
    show (∃ k, i = max 0 ((a + 6 : Nat) % 7) + k * 1 ∧ i ≤ 6 ∧ i ≤ (b + 6 : Nat) % 7) ↔
      ∃ k, (a : Nat) + k * 1 ≤ WeekdayItem.rangeEnd a b ∧ (i + 1) % 7 = (a + k * 1) % 7
    rw [hend]
    constructor
    · rintro ⟨k, hk⟩
      exact ⟨k, by omega⟩
    · rintro ⟨k, hk⟩
      exact ⟨k, by omega⟩

section

variable (hne : items ≠ []) (hordered : ∀ item ∈ items, item.IsOrdered)
  (hsteps : ∀ item ∈ items, item.step = none)

include hne hordered hsteps

/-- Names are left as they are, and read item by item. -/
theorem read_byName : (translateWeekdays (fieldText byName items) >>= Field.weekday.parse) =
    items.mapM fun item => if item.FromSunday then .error .reversed else .ok item.fromMonday := by
  have hchars := lowerChars_byName hsteps
  have hopen : (fieldText byName items == "*" || fieldText byName items == "?") = false := by
    have hrestricted := isRestricted_fieldText byName hne hordered
    rw [Bool.or_eq_false_iff, beq_eq_false_iff_ne, beq_eq_false_iff_ne]
    constructor <;> intro h <;> rw [h] at hrestricted <;> exact absurd hrestricted (by decide)
  have hdigit : (fieldText byName items).toList.any isDigitSign = false :=
    List.any_eq_false.mpr fun c hc => by simp [(hchars c hc).2]
  have hlower : lower (fieldText byName items) = fieldText byName items := by
    exact lower_of_forall fun c hc => (hchars c hc).1
  have hnames : translateWeekdays (fieldText byName items) = .ok (fieldText byName items) := by
    rw [translateWeekdays, hopen, hdigit, hlower]
    rfl
  rw [hnames, ok_bind, Field.parse, splitOn, splitChars_fieldText hne, List.map_map, List.mapM_map]
  exact mapM_congr fun item hitem => Item.parse_byName (hordered item hitem) (hsteps item hitem)

/-- Names without a range from Sunday on are read from Monday on. -/
theorem read_byName_of_not_fromSunday (h : ∀ item ∈ items, ¬ item.FromSunday) :
    (translateWeekdays (fieldText byName items) >>= Field.weekday.parse) =
      .ok (items.map WeekdayItem.fromMonday) := by
  rw [read_byName hne hordered hsteps, mapM_eq_ok, List.forall₂_map_right_iff, List.forall₂_same]
  exact fun item hitem => if_neg (h item hitem)

/-- Names with a range from Sunday on are refused. -/
theorem read_byName_of_fromSunday (h : ∃ item ∈ items, item.FromSunday) :
    (translateWeekdays (fieldText byName items) >>= Field.weekday.parse) = .error .reversed := by
  obtain ⟨sunday, hmem, hsunday⟩ := h
  rw [read_byName hne hordered hsteps]
  cases hread : items.mapM fun item => if item.FromSunday then Except.error Fault.reversed
    else .ok item.fromMonday with
  | ok read =>
    obtain ⟨_, _, hitem⟩ := exists_of_mapM_eq_ok hread hmem
    rw [if_pos hsunday] at hitem
    cases hitem
  | error fault =>
    obtain ⟨item, _, hitem⟩ := exists_of_mapM_eq_error hread
    split at hitem
    · exact congrArg Except.error (Except.error.inj hitem).symm
    · cases hitem

/-- Numbers without a step are read as the names of their days. -/
theorem read_byNumber : (translateWeekdays (fieldText byNumber items) >>= Field.weekday.parse) =
    .ok (itemsOf (coveredDays byNumber items)) := by
  have hproper : ∀ item ∈ items, ¬ item.Reversed byNumber :=
    fun item hitem => (hordered item hitem).not_reversed
  have hadvances : ∀ item ∈ items, item.Advances :=
    fun item hitem n hn => by simp [hsteps item hitem] at hn
  rw [translateWeekdays_of_digit (exists_digit_byNumber hne hordered),
    weekdaySet_fieldText hne hadvances hproper]
  exact parse_namesOf (coveredDays_ne_nil hne hproper) fun day => lt_of_mem_coveredDays

end

/-- **Numbers and names without a range from Sunday on allow the same days.** -/
theorem anyAllows_fromMonday (hordered : ∀ item ∈ items, item.IsOrdered)
    (hsteps : ∀ item ∈ items, item.step = none) (h : ∀ item ∈ items, ¬ item.FromSunday) {i : Nat}
    (hi : i < 7) : anyAllows 0 6 i (itemsOf (coveredDays byNumber items)) =
      anyAllows 0 6 i (items.map WeekdayItem.fromMonday) := by
  rw [Bool.eq_iff_iff, anyAllows_iff, anyAllows_iff,
    has_itemsOf (fun day => lt_of_mem_coveredDays) hi, mem_coveredDays]
  simp only [List.mem_map, exists_exists_and_eq_and]
  exact exists_congr fun item => and_congr_right fun hitem =>
    (has_fromMonday (hordered item hitem) (hsteps item hitem) (h item hitem) hi).symm

/-! ### Agreement -/

/-- **Names of days may stand in place of their numbers, except for a range from Sunday to a
later day in a field without any step.** Such a range makes the names unreadable, and their
flow never due, with a warning. -/
theorem names_for_numbers (hne : items ≠ []) (hordered : ∀ item ∈ items, item.IsOrdered)
    {f : Fields} {numbered named : String}
    (hnumbered : Fields.split numbered = .ok { f with weekday := fieldText byNumber items })
    (hnamed : Fields.split named = .ok { f with weekday := fieldText byName items }) :
    ((∃ item ∈ items, item.step ≠ none) ∨ (∀ item ∈ items, ¬ item.FromSunday) →
      Agree numbered named) ∧
    ((∀ item ∈ items, item.step = none) → (∃ item ∈ items, item.FromSunday) →
      ∀ s, Schedule.parse numbered = .ok s →
        ¬ Agree numbered named ∧ Schedule.parse named = .error .reversed ∧ NeverDue named) := by
  have ha : f.WithWeekdays (fieldText byNumber items) numbered :=
    ⟨hnumbered, isRestricted_fieldText byNumber hne hordered⟩
  have hb : f.WithWeekdays (fieldText byName items) named :=
    ⟨hnamed, isRestricted_fieldText byName hne hordered⟩
  constructor
  · intro h
    by_cases hstep : ∃ item ∈ items, item.step ≠ none
    · exact (ReadAlike.of_translateWeekdays ha hb (translateWeekdays_alike hne hordered
        (exists_digit_byNumber hne hordered) (exists_digit_of_step byName hstep))).agree
    · have hsunday := h.resolve_left hstep
      push Not at hstep
      exact (ReadAlike.of_allows ha hb (read_byNumber hne hordered hstep)
        (read_byName_of_not_fromSunday hne hordered hstep hsunday)
        fun i hi => anyAllows_fromMonday hordered hstep hsunday hi).agree
  · intro hsteps hsunday s hs
    have hschedule := Schedule.parse_of_weekdays ha (read_byNumber hne hordered hsteps)
    have hrefused := Schedule.parse_of_weekday_error (hschedule.symm.trans hs) hb
      (read_byName_of_fromSunday hne hordered hsteps hsunday)
    exact ⟨not_agree hs hrefused, hrefused, neverDue_of_parse hrefused⟩

/-- A working week and its Sunday may be written either way, and so may a range from Sunday
on with a step; without one the names cannot be read. -/
theorem names_for_numbers_fromSunday :
    let morning : Moment := ⟨dayNumber ⟨2025, 1, 1⟩ * day + 9 * hour, none⟩
    Agree "0 9 * * 1-5,0" "0 9 * * mon-fri,sun" ∧ Agree "0 9 * * 0-3/1" "0 9 * * sun-wed/1" ∧
      ¬ Agree "0 9 * * 0-3" "0 9 * * sun-wed" ∧
      isDueAt "0 9 * * 0-3" none morning = .ok ⟨true, none⟩ ∧
        ∃ g, isDueAt "0 9 * * sun-wed" none morning = .ok ⟨false, some g⟩ := by
  intro morning
  let f : Fields := ⟨"0", "9", "*", "*", ""⟩
  let week : List (WeekdayItem (Fin 7)) := [.range 1 5 none, .one 0 none]
  let stepped : List (WeekdayItem (Fin 7)) := [.range 0 3 (some (digitNumeral 1 (by decide)))]
  let sunday : List (WeekdayItem (Fin 7)) := [.range 0 3 none]
  have hweek := @names_for_numbers week (by simp [week]) (by simp [week, WeekdayItem.IsOrdered]) f
    "0 9 * * 1-5,0" "0 9 * * mon-fri,sun" (by decide +kernel) (by decide +kernel)
  have hstepped := @names_for_numbers stepped (by simp [stepped])
    (by simp [stepped, WeekdayItem.IsOrdered]) f
    "0 9 * * 0-3/1" "0 9 * * sun-wed/1" (by decide +kernel) (by decide +kernel)
  have hsunday := @names_for_numbers sunday (by simp [sunday])
    (by simp [sunday, WeekdayItem.IsOrdered]) f
    "0 9 * * 0-3" "0 9 * * sun-wed" (by decide +kernel) (by decide +kernel)
  have hread : Schedule.parse "0 9 * * 0-3" = .ok ⟨[⟨[.every none], [.every none],
      [.range 6 (some 6) none, .range 0 (some 0) none, .range 1 (some 1) none,
        .range 2 (some 2) none],
      [.range 9 (some 9) none], [.range 0 (some 0) none]⟩]⟩ := by decide +kernel
  obtain ⟨hagree, _, hnever⟩ := hsunday.2 (by simp [sunday, WeekdayItem.step])
    (by simp [sunday, WeekdayItem.FromSunday]) _ hread
  refine ⟨hweek.1 (Or.inr (by simp [week, WeekdayItem.FromSunday])),
    hstepped.1 (Or.inl (by simp [stepped, WeekdayItem.step])), hagree, by decide +kernel, ?_⟩
  exact (hnever morning (by decide +kernel)).2 (by decide +kernel)

end Cadence.Cron
