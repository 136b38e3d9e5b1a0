/-
What crontab means by a weekday field.

A field is a list of items: all days, one day or a range of days, each with a step or
without.  Days are written by number, Sunday being 0 and 7, or by their English names.

* `WritesDay` — the ways of writing a day;
* `WeekdayItem`, `fieldText` — the items of a field, and its text in some spelling of the days;
* `WeekdayItem.Covers`, `WeekdayItem.Reversed` — the days of an item, and the items that have none;
* `partDays_text` — what the text of an item is read as;
* `translateWeekdays_days` — a field with a digit is put into the names of just its days.
-/
import Mathlib.Data.List.Forall2
import Mathlib.Data.List.Nodup
import Mathlib.Tactic.Common
import Cadence.Proofs.Cron.Pattern
import Cadence.Proofs.Decimal.Numeral
import Cadence.Proofs.Validation.Checked

namespace Cadence.Cron

open Cadence.Text

/-! ### Days -/

/-- The days of the week by their English names, in the order of crontab. -/
def fullDays : List String :=
  ["sunday", "monday", "tuesday", "wednesday", "thursday", "friday", "saturday"]

/-- A name of a day: the English one, or the first three letters of it. -/
def IsDayName (n : Nat) (name : String) : Prop :=
  n < 7 ∧ (name = crontabDays.getD n "" ∨ name = fullDays.getD n "")

instance (n : Nat) (name : String) : Decidable (IsDayName n name) :=
  inferInstanceAs (Decidable (_ ∧ _))

/-- What is true of all names of days, one by one. -/
theorem IsDayName.elim {n : Nat} {name : String} {p : Nat → String → Prop} (h : IsDayName n name)
    (hall : ∀ n < 7, p n (crontabDays.getD n "") ∧ p n (fullDays.getD n "")) : p n name := by
  obtain ⟨hn, rfl | rfl⟩ := h
  · exact (hall n hn).1
  · exact (hall n hn).2

/-- The ways of writing a day: its number, Sunday being 0 and 7, or a name in any letter case. -/
inductive WritesDay (cs : List Char) (n : Nat) : Prop where
  | number (m : Numeral) (text : m.chars = cs) (readable : m.IsReadable)
    (value : m.value = n) (le : n ≤ 7)
  | name (isName : IsDayName n (lower (String.ofList cs)))

/-- The number of a day whose text is in lower case and has no blanks at its ends. -/
def dayOfToken (token : String) : Except Fault Nat :=
  if !token.toList.isEmpty && token.toList.all isDigitSign then
    match Decimal.integer? token with
    | .ok n => if 7 < n then .error (.weekdayNumber token) else .ok n.toNat
    | .error f => .error (.integer f)
  else
    match position? (String.ofList (token.toList.take 3)) crontabDays with
    | some i => .ok i
    | none => .error (.weekdayName token)

theorem weekdayNumber_eq {cs : List Char} (h : stripWhile isBlank cs = cs) :
    weekdayNumber cs = dayOfToken (lower (String.ofList cs)) := by
  have htrim : trim (String.ofList cs) = String.ofList cs := by rw [trim, String.toList_ofList, h]
  unfold weekdayNumber
  rw [htrim]
  generalize lower (String.ofList cs) = token
  rfl

theorem dayOfToken_numeral (m : Numeral) : dayOfToken (String.ofList m.chars) =
    if Decimal.maxIntegerDigits < m.chars.length then .error (.integer (.tooLong m.chars.length))
    else if 7 < m.value then .error (.weekdayNumber (String.ofList m.chars)) else .ok m.value := by
  have hrow : (!m.chars.isEmpty && m.chars.all isDigitSign) = true := by
    simpa [m.chars_ne] using fun c hc => m.isDigitSign hc
  rw [dayOfToken, String.toList_ofList, if_pos hrow, m.integer?_eq]
  by_cases hlong : Decimal.maxIntegerDigits < m.chars.length
  · rw [if_pos hlong, if_pos hlong]
  · have hcast : (7 : Int) < m.value ↔ 7 < m.value := by omega
    rw [if_neg hlong, if_neg hlong]
    simp [hcast]

theorem dayOfToken_name {n : Nat} {name : String} (h : IsDayName n name) :
    dayOfToken name = .ok n :=
  h.elim (p := fun n name => dayOfToken name = .ok n) (by decide +kernel)

namespace WritesDay

variable {cs : List Char} {n : Nat}

theorem le (h : WritesDay cs n) : n ≤ 7 := by
  cases h with
  | number _ _ _ _ hle => exact hle
  | name h => exact Nat.le_of_lt h.1

/-- A character that no name has, and that is neither a digit nor changed by lower case,
stands in no day. -/
theorem not_mem {c : Char} (h : WritesDay cs n) (hlower : lowerChars c = [c])
    (hdigit : isDecimalDigit c = false)
    (hnames : ∀ n < 7, c ∉ (crontabDays.getD n "").toList ∧ c ∉ (fullDays.getD n "").toList) :
    c ∉ cs := by
  intro hmem
  cases h with
  | number m htext _ _ _ =>
    rw [m.digits c (htext ▸ hmem)] at hdigit
    cases hdigit
  | name h =>
    have hlow : c ∈ (lower (String.ofList cs)).toList := mem_lower hlower (by simpa using hmem)
    exact h.elim (p := fun _ name => c ∉ name.toList) hnames hlow

/-- A day has no blanks. -/
theorem stripWhile_eq (h : WritesDay cs n) : stripWhile isBlank cs = cs := by
  refine stripWhile_of_forall fun c hc => ?_
  cases hblank : isBlank c with
  | false => rfl
  | true =>
    have hcodes : ∀ code ∈ blankCodes, isDecimalDigit (Char.ofNat code) = false ∧
        ∀ n < 7, Char.ofNat code ∉ (crontabDays.getD n "").toList ∧
        Char.ofNat code ∉ (fullDays.getD n "").toList := by
      decide +kernel
    obtain ⟨hdigit, hnames⟩ := hcodes c.toNat (mem_blankCodes hblank)
    rw [Char.ofNat_toNat] at hdigit hnames
    exact absurd hc (h.not_mem (lowerChars_of_isBlank hblank) hdigit hnames)

/-- **A day is read as its number.** -/
theorem weekdayNumber_eq (h : WritesDay cs n) : weekdayNumber cs = .ok n := by
  rw [Cron.weekdayNumber_eq h.stripWhile_eq]
  cases h with
  | number m htext hreadable hvalue hle =>
    subst htext hvalue
    rw [m.lower_chars, dayOfToken_numeral, if_neg (Nat.not_lt.mpr hreadable),
      if_neg (Nat.not_lt.mpr hle)]
  | name h => exact dayOfToken_name h

theorem comma_not_mem (h : WritesDay cs n) : ',' ∉ cs :=
  h.not_mem (by decide) (by decide) (by decide)

theorem slash_not_mem (h : WritesDay cs n) : '/' ∉ cs :=
  h.not_mem (by decide) (by decide) (by decide)

theorem dash_not_mem (h : WritesDay cs n) : '-' ∉ cs :=
  h.not_mem (by decide) (by decide) (by decide)

theorem star_not_mem (h : WritesDay cs n) : '*' ∉ cs :=
  h.not_mem (by decide) (by decide) (by decide)

theorem question_not_mem (h : WritesDay cs n) : '?' ∉ cs :=
  h.not_mem (by decide) (by decide) (by decide)

theorem ne_nil (h : WritesDay cs n) : cs ≠ [] := by
  rintro rfl
  cases h with
  | number m htext _ _ _ => exact m.chars_ne htext
  | name h => exact h.elim (p := fun _ name => lower "" ≠ name) (by decide) rfl

end WritesDay

/-! ### Items -/

/-- An item of a weekday field: all days, one day, or a range of days; with a step or without. -/
inductive WeekdayItem (α : Type) where
  | every (step : Option Numeral)
  | one (day : α) (step : Option Numeral)
  | range (first last : α) (step : Option Numeral)

/-- A way of writing the days, and the number of each. -/
structure Spelling (α : Type) where
  spell : α → List Char
  number : α → Nat
  writes : ∀ day, WritesDay (spell day) (number day)

/-- A day in some spelling. -/
structure Day where
  text : List Char
  number : Nat
  writes : WritesDay text number

namespace Day

/-- Each day in its own spelling. -/
def spelling : Spelling Day where
  spell := text
  number := number
  writes := writes

/-- A day by its number. -/
def digit (n : Nat) (h : n ≤ 7) : Day where
  text := (digitNumeral n (by omega)).chars
  number := n
  writes := .number (digitNumeral n (by omega)) rfl (digitNumeral_isReadable _)
    (digitNumeral_value _) h

/-- A day by its name. -/
def named (n : Nat) (text : String) (h : IsDayName n (lower text)) : Day where
  text := text.toList
  number := n
  writes := .name (by rwa [String.ofList_toList])

end Day

namespace WeekdayItem

variable {α : Type} (w : Spelling α)

/-- The step of an item, if it has one. -/
def step : WeekdayItem α → Option Numeral
  | .every step | .one _ step | .range _ _ step => step

/-- The distance between the days of an item. -/
def period (item : WeekdayItem α) : Nat :=
  match item.step with
  | none => 1
  | some n => n.value

/-- A step that is positive and does not have too many digits. -/
def Advances (item : WeekdayItem α) : Prop := ∀ n, item.step = some n → n.IsReadable ∧ 0 < n.value

/-- The text of an item before its step. -/
def base : WeekdayItem α → List Char
  | .every _ => ['*']
  | .one day _ => w.spell day
  | .range first last _ => w.spell first ++ '-' :: w.spell last

/-- The text of an item. -/
def text (item : WeekdayItem α) : List Char :=
  match item.step with
  | none => item.base w
  | some n => item.base w ++ '/' :: n.chars

/-- The last day of a range, which is 7 if the range ends on a Sunday that it does not begin
with. -/
def rangeEnd (first last : Nat) : Nat := if last = 0 ∧ 0 < first then 7 else last

/-- The days of an item, Sunday being 0: steps are counted from Sunday or from the first day
of the item, and a single day with a step goes on to Saturday. -/
def Covers (day : Nat) (item : WeekdayItem α) : Prop :=
  match item with
  | .every _ => ∃ k, day = k * item.period ∧ day ≤ 6
  | .one d none => day = w.number d % 7
  | .one d (some _) => ∃ k, day = w.number d + k * item.period ∧ day ≤ 6
  | .range a b _ => ∃ k, w.number a + k * item.period ≤ rangeEnd (w.number a) (w.number b) ∧
      day = (w.number a + k * item.period) % 7

/-- A range that starts after its end, or steps that start at 7. -/
def Reversed : WeekdayItem α → Prop
  | .one d (some _) => w.number d = 7
  | .range a b _ => rangeEnd (w.number a) (w.number b) < w.number a
  | _ => False

/-- The first and the last day of an item. -/
def bounds : WeekdayItem α → Nat × Nat
  | .every _ => (0, 6)
  | .one d none => (w.number d, w.number d)
  | .one d (some _) => (w.number d, 6)
  | .range a b _ => (w.number a, rangeEnd (w.number a) (w.number b))

variable {w} {item : WeekdayItem α}

theorem reversed_iff : item.Reversed w ↔ (item.bounds w).2 < (item.bounds w).1 := by
  cases item with
  | every step => simp [Reversed, bounds]
  | one d step =>
    have hle := (w.writes d).le
    cases step with
    | none => simp [Reversed, bounds]
    | some n =>
      simp only [Reversed, bounds]
      omega
  | range a b step => rfl

/-- The days of an item are those on its steps from its first to its last day, modulo the week. -/
theorem covers_iff {day : Nat} : item.Covers w day ↔
    ∃ k, (item.bounds w).1 + k * item.period ≤ (item.bounds w).2 ∧
      day = ((item.bounds w).1 + k * item.period) % 7 := by
  cases item with
  | every step =>
    simp only [Covers, bounds, Nat.zero_add]
    constructor
    · rintro ⟨k, rfl, hle⟩
      exact ⟨k, hle, (Nat.mod_eq_of_lt (Nat.lt_succ_of_le hle)).symm⟩
    · rintro ⟨k, hle, rfl⟩
      exact ⟨k, Nat.mod_eq_of_lt (Nat.lt_succ_of_le hle), by omega⟩
  | one d step =>
    cases step with
    | none =>
      simp only [Covers, bounds, period, step]
      constructor
      · rintro rfl
        exact ⟨0, by omega, by simp⟩
      · rintro ⟨k, hle, rfl⟩
        congr 1
        omega
    | some n =>
      simp only [Covers, bounds]
      constructor
      · rintro ⟨k, rfl, hle⟩
        exact ⟨k, hle, (Nat.mod_eq_of_lt (Nat.lt_succ_of_le hle)).symm⟩
      · rintro ⟨k, hle, rfl⟩
        exact ⟨k, Nat.mod_eq_of_lt (Nat.lt_succ_of_le hle), by omega⟩
  | range a b step => rfl

/-! ### Texts of items -/

theorem slash_not_mem_base : '/' ∉ item.base w := by
  cases item with
  | every step => simp [base]
  | one d step => exact (w.writes d).slash_not_mem
  | range a b step => simp [base, (w.writes a).slash_not_mem, (w.writes b).slash_not_mem]

theorem comma_not_mem_text : ',' ∉ item.text w := by
  have hbase : ',' ∉ item.base w := by
    cases item with
    | every step => simp [base]
    | one d step => exact (w.writes d).comma_not_mem
    | range a b step => simp [base, (w.writes a).comma_not_mem, (w.writes b).comma_not_mem]
  unfold text
  split
  · exact hbase
  · next n _ =>
    have hdigits : ',' ∉ n.chars := fun hmem => absurd (n.digits ',' hmem) (by decide)
    simp [hbase, hdigits]

/-- An item falls into what stands before its step and the digits of the step. -/
theorem cutAt_text : cutAt '/' (item.text w) = (item.base w, item.step.map Numeral.chars) := by
  unfold text
  split
  · next h => rw [h, cutAt_of_not_mem slash_not_mem_base]; rfl
  · next n h => rw [h, cutAt_append slash_not_mem_base]; rfl

theorem dayBounds_base : dayBounds (item.base w) item.step.isSome = .ok (item.bounds w) := by
  cases item with
  | every step => rfl
  | one d step =>
    have hday := w.writes d
    have hne : (w.spell d == ['*']) = false := by
      rw [beq_eq_false_iff_ne]
      exact fun h => hday.star_not_mem (h ▸ List.mem_singleton_self '*')
    simp only [dayBounds, base, hne, cutAt_of_not_mem hday.dash_not_mem,
      hday.weekdayNumber_eq, ok_bind]
    cases step <;> rfl
  | range a b step =>
    have hne : (w.spell a ++ '-' :: w.spell b == ['*']) = false := by
      rw [beq_eq_false_iff_ne]
      intro h
      have hdash : '-' ∈ ['*'] := h ▸ (by simp)
      simp at hdash
    simp [dayBounds, base, hne, cutAt_append (w.writes a).dash_not_mem,
      (w.writes a).weekdayNumber_eq, (w.writes b).weekdayNumber_eq, bounds, rangeEnd]

theorem dayStep_text (h : item.Advances) (part : List Char) :
    dayStep part (item.step.map Numeral.chars) = .ok item.period := by
  unfold period
  cases hstep : item.step with
  | none => rfl
  | some n =>
    obtain ⟨hreadable, hpos⟩ := h n hstep
    obtain ⟨c, cs, hchars⟩ := List.exists_cons_of_ne_nil n.chars_ne
    have hread := n.integer?_eq
    rw [if_neg (Nat.not_lt.mpr hreadable), hchars] at hread
    simp only [Option.map_some, hchars, dayStep, hread]
    rw [if_neg (by omega)]
    simp

/-- The days from a first to a last one that lie on steps of some length, modulo the week. -/
def daysFrom (first last period : Nat) : List Nat :=
  ((List.range (last - first + 1)).filter (· % period == 0)).map fun i => (first + i) % 7

theorem mem_daysFrom {first last period day : Nat} (h : first ≤ last) :
    day ∈ daysFrom first last period ↔ ∃ k, first + k * period ≤ last ∧
      day = (first + k * period) % 7 := by
  simp only [daysFrom, List.mem_map, List.mem_filter, List.mem_range, beq_iff_eq]
  constructor
  · rintro ⟨i, ⟨hlt, hmod⟩, rfl⟩
    obtain ⟨k, rfl⟩ := Nat.dvd_of_mod_eq_zero hmod
    rw [Nat.mul_comm period k] at *
    exact ⟨k, by omega, rfl⟩
  · rintro ⟨k, hle, rfl⟩
    exact ⟨k * period, ⟨by omega, Nat.mul_mod_left k period⟩, rfl⟩

/-- What the text of an item is read as, apart from its step. -/
theorem partDays_text (w : Spelling α) (item : WeekdayItem α) : partDays (item.text w) =
    (do let period ← dayStep (item.text w) (item.step.map Numeral.chars)
        if (item.bounds w).2 < (item.bounds w).1
          then throw (.weekdayRange (String.ofList (item.base w)))
        pure (daysFrom (item.bounds w).1 (item.bounds w).2 period)) := by
  have hstepped : ((item.step.map Numeral.chars).map (!·.isEmpty)).getD false =
      item.step.isSome := by
    cases item.step with
    | none => rfl
    | some n => simp [n.chars_ne]
  simp only [partDays, cutAt_text, hstepped, dayBounds_base, ok_bind]
  rfl

/-- **An item is read as its days.** -/
theorem partDays_of_not_reversed (hstep : item.Advances) (h : ¬ item.Reversed w) :
    ∃ days, partDays (item.text w) = .ok days ∧ ∀ day, day ∈ days ↔ item.Covers w day := by
  rw [reversed_iff, Nat.not_lt] at h
  refine ⟨daysFrom (item.bounds w).1 (item.bounds w).2 item.period, ?_, fun day => ?_⟩
  · rw [partDays_text, dayStep_text hstep, ok_bind, if_neg (Nat.not_lt.mpr h)]
    rfl
  · rw [mem_daysFrom h, covers_iff]

/-- A reversed item is refused. -/
theorem partDays_of_reversed (hstep : item.Advances) (h : item.Reversed w) :
    partDays (item.text w) = .error (.weekdayRange (String.ofList (item.base w))) := by
  rw [partDays_text, dayStep_text hstep, ok_bind, if_pos (reversed_iff.mp h)]
  rfl

end WeekdayItem

/-! ### Fields -/

/-- The text of a weekday field. -/
def fieldText {α : Type} (w : Spelling α) (items : List (WeekdayItem α)) : String :=
  String.ofList ([','].intercalate (items.map (·.text w)))

/-- The names of days, in a row. -/
def namesOf (days : List Nat) : List String := days.map (crontabDays.getD · "")

section

variable {α : Type} {w : Spelling α} {items : List (WeekdayItem α)}

open Classical in
/-- The days of a field, in order. -/
noncomputable def coveredDays (w : Spelling α) (items : List (WeekdayItem α)) : List Nat :=
  (List.range 7).filter fun day => ∃ item ∈ items, item.Covers w day

open Classical in
theorem mem_coveredDays {day : Nat} :
    day ∈ coveredDays w items ↔ ∃ item ∈ items, item.Covers w day := by
  simp only [coveredDays, List.mem_filter, List.mem_range, decide_eq_true_eq]
  refine and_iff_right_of_imp ?_
  rintro ⟨item, _, hcovers⟩
  obtain ⟨k, _, rfl⟩ := WeekdayItem.covers_iff.mp hcovers
  exact Nat.mod_lt _ (by decide)

theorem lt_of_mem_coveredDays {day : Nat} (h : day ∈ coveredDays w items) : day < 7 :=
  List.mem_range.mp (List.mem_filter.mp h).1

/-- Every item that is not reversed has its first day. -/
theorem coveredDays_ne_nil (hne : items ≠ []) (h : ∀ item ∈ items, ¬ item.Reversed w) :
    coveredDays w items ≠ [] := by
  obtain ⟨item, hitem⟩ := List.exists_mem_of_ne_nil items hne
  have hbounds := h item hitem
  rw [WeekdayItem.reversed_iff] at hbounds
  exact List.ne_nil_of_mem
    (mem_coveredDays.mpr ⟨item, hitem, WeekdayItem.covers_iff.mpr ⟨0, by omega, rfl⟩⟩)

theorem mem_fieldText {c : Char} :
    c ∈ (fieldText w items).toList ↔ (c = ',' ∧ 2 ≤ items.length) ∨
      ∃ item ∈ items, c ∈ item.text w := by
  rw [fieldText, String.toList_ofList, mem_intercalate]
  simp only [List.length_map, List.mem_map, exists_exists_and_eq_and]

theorem splitChars_fieldText (hne : items ≠ []) :
    splitChars ',' (fieldText w items).toList = items.map (·.text w) := by
  rw [fieldText, String.toList_ofList, splitChars_intercalate (by simpa using hne)]
  intro part hpart
  obtain ⟨item, _, rfl⟩ := List.mem_map.mp hpart
  exact WeekdayItem.comma_not_mem_text

theorem weekdaySet_eq (hne : items ≠ []) : weekdaySet (fieldText w items).toList =
    (do let parts ← items.mapM fun item => partDays (item.text w)
        pure ((List.range 7).filter parts.flatten.contains)) := by
  rw [weekdaySet, splitChars_fieldText hne, List.mapM_map]
  rfl

/-- The days of all items are those of the items that were read. -/
theorem mem_flatten_of_read {parts : List (List Nat)} {day : Nat}
    (hread : List.Forall₂ (fun item days => partDays (item.text w) = .ok days) items parts)
    (hsteps : ∀ item ∈ items, item.Advances) (h : ∀ item ∈ items, ¬ item.Reversed w) :
    day ∈ parts.flatten ↔ ∃ item ∈ items, item.Covers w day := by
  induction hread with
  | nil => simp
  | @cons item days items parts hitem _ ih =>
    obtain ⟨days', hdays, hcovers⟩ :=
      WeekdayItem.partDays_of_not_reversed (hsteps item List.mem_cons_self)
      (h item List.mem_cons_self)
    obtain rfl := Except.ok.inj (hitem.symm.trans hdays)
    rw [List.flatten_cons, List.mem_append, hcovers,
      ih (fun x hx => hsteps x (List.mem_cons_of_mem item hx)) fun x hx =>
        h x (List.mem_cons_of_mem item hx)]
    simp only [List.mem_cons, exists_eq_or_imp]

open Classical in
/-- **A field without reversed items is read as its days.** -/
theorem weekdaySet_fieldText (hne : items ≠ []) (hsteps : ∀ item ∈ items, item.Advances)
    (h : ∀ item ∈ items, ¬ item.Reversed w) :
    weekdaySet (fieldText w items).toList = .ok (coveredDays w items) := by
  rw [weekdaySet_eq hne]
  cases hread : items.mapM fun item => partDays (item.text w) with
  | error e =>
    obtain ⟨item, hitem, hfail⟩ := exists_of_mapM_eq_error hread
    obtain ⟨days, hdays, _⟩ :=
      WeekdayItem.partDays_of_not_reversed (hsteps item hitem) (h item hitem)
    rw [hdays] at hfail
    cases hfail
  | ok parts =>
    refine congrArg Except.ok (List.filter_congr fun day _ => ?_)
    rw [Bool.eq_iff_iff, List.contains_iff_mem, mem_flatten_of_read (mapM_eq_ok.mp hread) hsteps h]
    exact decide_eq_true_iff.symm

/-- A field with a reversed item is refused for one of its reversed items. -/
theorem weekdaySet_of_reversed (hsteps : ∀ item ∈ items, item.Advances)
    (h : ∃ item ∈ items, item.Reversed w) :
    ∃ item ∈ items, item.Reversed w ∧
      weekdaySet (fieldText w items).toList =
        .error (.weekdayRange (String.ofList (item.base w))) := by
  obtain ⟨reversed, hmem, hreversed⟩ := h
  rw [weekdaySet_eq (List.ne_nil_of_mem hmem)]
  cases hread : items.mapM fun item => partDays (item.text w) with
  | error e =>
    obtain ⟨item, hitem, hfail⟩ := exists_of_mapM_eq_error hread
    by_cases hitemReversed : item.Reversed w
    · rw [WeekdayItem.partDays_of_reversed (hsteps item hitem) hitemReversed] at hfail
      exact ⟨item, hitem, hitemReversed, congrArg Except.error (Except.error.inj hfail).symm⟩
    · obtain ⟨days, hdays, _⟩ :=
        WeekdayItem.partDays_of_not_reversed (hsteps item hitem) hitemReversed
      rw [hdays] at hfail
      cases hfail
  | ok parts =>
    obtain ⟨days, _, hdays⟩ := exists_of_mapM_eq_ok hread hmem
    rw [WeekdayItem.partDays_of_reversed (hsteps reversed hmem) hreversed] at hdays
    cases hdays

/-- A field with a digit is put into the names of its days. -/
theorem translateWeekdays_of_digit {field : String} (h : ∃ c ∈ field.toList, isDigitSign c = true) :
    translateWeekdays field = (weekdaySet field.toList).map fun days =>
      ",".intercalate (namesOf days) := by
  have hany : field.toList.any isDigitSign = true := List.any_eq_true.mpr h
  have hstar : (field == "*" || field == "?") = false := by
    rw [Bool.or_eq_false_iff, beq_eq_false_iff_ne, beq_eq_false_iff_ne]
    constructor
    · rintro rfl
      exact absurd hany (by decide)
    · rintro rfl
      exact absurd hany (by decide)
  rw [translateWeekdays, hstar, hany]
  rfl

end

/-! ### Names -/

theorem crontabDays_inj :
    ∀ a < 7, ∀ b < 7, crontabDays.getD a "" = crontabDays.getD b "" → a = b :=
  by decide

/-- The days of names, read again: Monday is 0. -/
def itemsOf (days : List Nat) : List Item :=
  days.map fun day => .range ((day + 6) % 7) (some ((day + 6) % 7)) none

/-- **Names of days are read as just these days.** -/
theorem parse_namesOf {days : List Nat} (hne : days ≠ []) (h : ∀ day ∈ days, day < 7) :
    Field.weekday.parse (",".intercalate (namesOf days)) = .ok (itemsOf days) := by
  have hitem : ∀ day < 7, ',' ∉ (crontabDays.getD day "").toList ∧
      Item.parse .weekday (crontabDays.getD day "") =
      .ok (.range ((day + 6) % 7) (some ((day + 6) % 7)) none) := by decide +kernel
  have hsplit : splitChars ',' (",".intercalate (namesOf days)).toList =
      (namesOf days).map String.toList := by
    rw [String.toList_intercalate]
    refine splitChars_intercalate (by simpa [namesOf] using hne) ?_
    simp only [namesOf, List.map_map, List.mem_map]
    rintro _ ⟨day, hday, rfl⟩
    exact (hitem day (h day hday)).1
  have hnames : (namesOf days).mapM (Item.parse .weekday) = .ok (itemsOf days) := by
    rw [mapM_eq_ok]
    simp only [namesOf, itemsOf, List.forall₂_map_left_iff, List.forall₂_map_right_iff,
      List.forall₂_same]
    exact fun day hday => (hitem day (h day hday)).2
  rw [Field.parse, splitOn, hsplit]
  simpa using hnames

theorem has_itemsOf {days : List Nat} (h : ∀ day ∈ days, day < 7) {i : Nat} (hi : i < 7) :
    (∃ item ∈ itemsOf days, item.Has 0 6 i) ↔ (i + 1) % 7 ∈ days := by
  simp only [itemsOf, List.mem_map, exists_exists_and_eq_and, Item.Has, Option.getD_some]
  constructor
  · rintro ⟨day, hday, k, hfirst, _, hlast⟩
    have hlt := h day hday
    rwa [show (i + 1) % 7 = day by omega]
  · intro hday
    exact ⟨_, hday, 0, by omega, by omega, by omega⟩

/-- The names of the covered days, each once. -/
theorem nodup_namesOf {α : Type} (w : Spelling α) (items : List (WeekdayItem α)) :
    (namesOf (coveredDays w items)).Nodup := by
  refine List.Nodup.map_on (fun a ha b hb => ?_) (List.nodup_range.filter _)
  exact crontabDays_inj a (lt_of_mem_coveredDays ha) b (lt_of_mem_coveredDays hb)

/-- Counted from Monday, a day has the same name. -/
theorem mem_namesOf {days : List Nat} (h : ∀ day ∈ days, day < 7) {i : Nat} (hi : i < 7) :
    dayNames.getD i "" ∈ namesOf days ↔ (i + 1) % 7 ∈ days := by
  have hname : ∀ i < 7, dayNames.getD i "" = crontabDays.getD ((i + 1) % 7) "" := by decide
  rw [hname i hi, namesOf, List.mem_map]
  constructor
  · rintro ⟨day, hday, heq⟩
    rwa [← crontabDays_inj day (h day hday) _ (Nat.mod_lt _ (by decide)) heq]
  · exact fun hday => ⟨_, hday, rfl⟩

/-- **A weekday field with a digit is put into the names of just its days, or refused if one
of its items is reversed.** The names stand in a row without repeats, and where Monday is 0
they are read as the days of the field. -/
theorem translateWeekdays_days {α : Type} (w : Spelling α) (items : List (WeekdayItem α))
    (hsteps : ∀ item ∈ items, item.Advances)
    (hdigit : ∃ c ∈ (fieldText w items).toList, isDigitSign c = true) :
    ((∃ item ∈ items, item.Reversed w) → ∃ item ∈ items, item.Reversed w ∧
      translateWeekdays (fieldText w items) =
        .error (.weekdayRange (String.ofList (item.base w)))) ∧
    ((∀ item ∈ items, ¬ item.Reversed w) → ∃ names : List String,
      translateWeekdays (fieldText w items) = .ok (",".intercalate names) ∧
      names ≠ [] ∧ names.Nodup ∧ (∀ name ∈ names, name ∈ dayNames) ∧
      (∀ i < 7, dayNames.getD i "" ∈ names ↔ ∃ item ∈ items, item.Covers w ((i + 1) % 7)) ∧
      ∃ read, Field.weekday.parse (",".intercalate names) = .ok read ∧
        ∀ i < 7, (∃ item ∈ read, item.Has 0 6 i) ↔
        ∃ item ∈ items, item.Covers w ((i + 1) % 7)) := by
  have hne : items ≠ [] := by
    rintro rfl
    simp [fieldText] at hdigit
  rw [translateWeekdays_of_digit hdigit]
  constructor
  · intro hreversed
    obtain ⟨item, hitem, hitemReversed, hrefused⟩ := weekdaySet_of_reversed hsteps hreversed
    exact ⟨item, hitem, hitemReversed, by rw [hrefused]; rfl⟩
  · intro hproper
    have hlt : ∀ day ∈ coveredDays w items, day < 7 := fun day => lt_of_mem_coveredDays
    have hdays := coveredDays_ne_nil hne hproper
    refine ⟨namesOf (coveredDays w items), by rw [weekdaySet_fieldText hne hsteps hproper]; rfl, ?_,
      nodup_namesOf w items, ?_, fun i hi => (mem_namesOf hlt hi).trans mem_coveredDays,
      itemsOf (coveredDays w items), parse_namesOf hdays hlt,
        fun i hi => (has_itemsOf hlt hi).trans mem_coveredDays⟩
    · simpa [namesOf] using hdays
    · have hname : ∀ day < 7, crontabDays.getD day "" ∈ dayNames := by decide
      simp only [namesOf, List.mem_map]
      rintro _ ⟨day, hday, rfl⟩
      exact hname day (hlt day hday)

/-- Ranges may end on the Sunday that closes the week, and days and steps of all kinds stand
side by side; a range that starts after its end is refused. -/
theorem translateWeekdays_days_pastSunday :
    let items : List (WeekdayItem Day) :=
      [.range (.named 5 "fri" (by decide)) (.digit 0 (by decide))
      (some (digitNumeral 2 (by decide))), .one (.named 0 "SUN" (by decide)) none,
      .one (.digit 3 (by decide)) (some (digitNumeral 2 (by decide))),
        .one (.digit 7 (by decide)) none]
    let back : List (WeekdayItem Day) := [.one (.digit 1 (by decide)) none,
      .range (.digit 6 (by decide)) (.named 2 "tue" (by decide)) none]
    (fieldText Day.spelling items = "fri-0/2,SUN,3/2,7" ∧
      ∃ names : List String, translateWeekdays "fri-0/2,SUN,3/2,7" =
        .ok (",".intercalate names) ∧ names.Nodup ∧
        ∀ i < 7, dayNames.getD i "" ∈ names ↔
        ∃ item ∈ items, item.Covers Day.spelling ((i + 1) % 7)) ∧
    fieldText Day.spelling back = "1,6-tue" ∧
      translateWeekdays "1,6-tue" = .error (.weekdayRange "6-tue") := by
  intro items back
  have htwo : (digitNumeral 2 (by decide)).IsReadable ∧ 0 < (digitNumeral 2 (by decide)).value := by
    rw [digitNumeral_value]
    exact ⟨digitNumeral_isReadable _, by decide⟩
  have hsteps : ∀ item ∈ items, item.Advances := by
    simp [items, WeekdayItem.Advances, WeekdayItem.step, htwo]
  have hbackSteps : ∀ item ∈ back, item.Advances := by
    simp [back, WeekdayItem.Advances, WeekdayItem.step]
  have htext : fieldText Day.spelling items = "fri-0/2,SUN,3/2,7" := by decide +kernel
  have hbackText : fieldText Day.spelling back = "1,6-tue" := by decide +kernel
  have hproper : ∀ item ∈ items, ¬ item.Reversed Day.spelling := by
    simp [items, WeekdayItem.Reversed, WeekdayItem.rangeEnd, Day.spelling, Day.digit, Day.named]
  constructor
  · obtain ⟨_, hdays⟩ := translateWeekdays_days Day.spelling items hsteps
      (htext ▸ ⟨'2', by decide, by decide⟩)
    obtain ⟨names, hnames, _, hnodup, _, hcovers, _⟩ := hdays hproper
    exact ⟨htext, names, htext ▸ hnames, hnodup, hcovers⟩
  · obtain ⟨hrefused, _⟩ := translateWeekdays_days Day.spelling back hbackSteps
      (hbackText ▸ ⟨'1', by decide, by decide⟩)
    obtain ⟨item, hitem, hreversed, heq⟩ :=
        hrefused ⟨_, List.mem_cons_of_mem _ List.mem_cons_self, by
      simp [WeekdayItem.Reversed, WeekdayItem.rangeEnd, Day.spelling, Day.digit, Day.named]⟩
    rw [hbackText] at heq
    refine ⟨hbackText, ?_⟩
    -- of the two items only the range is reversed
    rcases List.mem_cons.mp hitem with rfl | hitem
    · exact absurd hreversed (by simp [WeekdayItem.Reversed])
    · rw [List.mem_singleton.mp hitem] at heq
      rw [heq]
      decide +kernel

end Cadence.Cron
