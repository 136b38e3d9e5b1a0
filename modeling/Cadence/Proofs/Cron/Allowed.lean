/-
The values that the fields of a schedule allow, and the next one of them.

* `Item.allows`, `anyAllows` — whether an item, or one of several, allows a value;
* `Schedule.occursAt` — whether a schedule occurs in a minute of a date;
* `Item.IsStepped` — items without a step of zero, as all are that are read
  (`Schedule.parse_isStepped`);
* `isLeast_nextValue` — the next value of a field is the least that it allows, from a value on.

The distance from a value to the next one on a step is a remainder: that of the step less
the distance from the start to the value.
-/
import Mathlib.Tactic.Common
import Mathlib.Tactic.SplitIfs
import Cadence.Proofs.Validation.Checked
import Cadence.Cron.Search

namespace Cadence.Cron

open Cadence.Calendar

/-! ### Values -/

/-- Whether a value lies on a step counted from a start. -/
def onStep (start value : Nat) : Option Nat → Bool
  | none => true
  | some n => (value - start) % n == 0

/-- Whether an item allows a value, the field running from `low` to `high`. -/
def Item.allows (low high value : Nat) : Item → Bool
  | .every step => low ≤ value && value ≤ high && onStep low value step
  | .range first last step =>
    max low first ≤ value && value ≤ min high (last.getD high) && onStep (max low first) value step
  | .lastDay => value == high

/-- Whether one of the items of a field allows a value. -/
def anyAllows (low high value : Nat) (items : List Item) : Bool :=
  items.any (Item.allows low high value)

/-- Whether a variant allows a date. The day of the month runs to the end of that month. -/
def Variant.allowsDate (v : Variant) (d : Date) : Bool :=
  anyAllows 1 12 d.month v.month && anyAllows 1 (daysInMonth d.year d.month) d.day v.day &&
    anyAllows 0 6 (Calendar.weekday (Calendar.dayNumber d)) v.weekday

/-- Whether a variant allows a time of day. -/
def Variant.allowsTime (v : Variant) (hour minute : Nat) : Bool :=
  anyAllows 0 23 hour v.hour && anyAllows 0 59 minute v.minute

/-- Whether a schedule occurs on a date in a minute of the day. -/
def Schedule.occursAt (s : Schedule) (d : Date) (minuteOfDay : Nat) : Bool :=
  s.variants.any fun v => v.allowsDate d && v.allowsTime (minuteOfDay / 60) (minuteOfDay % 60)

/-! ### The next value -/

/-- An item whose step, if it has one, is not zero. -/
def Item.IsStepped : Item → Prop
  | .every step => step ≠ some 0
  | .range _ _ step => step ≠ some 0
  | .lastDay => True

section

variable {n k x : Nat}

/-- What is missing from `k` to a multiple of `n`. -/
theorem add_missing_mod (hn : 0 < n) : (k + (((n : Int) - k) % n).toNat) % n = 0 := by
  have hr : 0 ≤ ((n : Int) - k) % n := Int.emod_nonneg _ (by omega)
  refine Int.ofNat_inj.mp ?_
  rw [Int.natCast_emod, Int.natCast_add, Int.toNat_of_nonneg hr, Int.add_emod_emod,
    show (k : Int) + (n - k) = n by omega, Int.emod_self]
  rfl

theorem missing_le (h : (k + x) % n = 0) : (((n : Int) - k) % n).toNat ≤ x := by
  obtain ⟨c, hc⟩ := Nat.dvd_of_mod_eq_zero h
  have hsum : (k : Int) + x = n * c := by exact_mod_cast hc
  -- `x` is missing too, so the two differ by a multiple of `n`
  have hmod : ((n : Int) - k) % n = (x : Int) % n := by
    rw [show (n : Int) - k = x + n * (1 - c) by rw [Int.mul_sub]; omega, Int.add_mul_emod_self_left]
  rw [hmod, ← Int.natCast_emod, Int.toNat_natCast]
  exact Nat.mod_le x n

end

section

variable {start value : Nat} {step : Option Nat} (hstep : step ≠ some 0) (h : start ≤ value)

theorem le_stepUp (start value : Nat) (step : Option Nat) : value ≤ stepUp start value step := by
  unfold stepUp
  split
  · exact Nat.le_refl _
  · exact Nat.le_refl _
  · exact Nat.le_add_right _ _

include hstep

/-- A step as it is counted: none is a step of one. -/
theorem stepUp_eq (start value : Nat) : step = none ∧ stepUp start value step = value ∨
    ∃ n, 0 < n ∧ step = some n ∧
      stepUp start value step = value + (((n : Int) - (value - start : Nat)) % n).toNat := by
  rcases step with _ | _ | n
  · exact Or.inl ⟨rfl, rfl⟩
  · exact absurd rfl hstep
  · exact Or.inr ⟨n + 1, Nat.succ_pos n, rfl, rfl⟩

include h

theorem onStep_stepUp : onStep start (stepUp start value step) step = true := by
  rcases stepUp_eq hstep start value with ⟨rfl, _⟩ | ⟨n, hn, rfl, hnext⟩
  · rfl
  · have hmod := add_missing_mod (k := value - start) hn
    rw [hnext, onStep, beq_iff_eq, ← hmod]
    congr 1
    omega

theorem stepUp_le {m : Nat} (hm : value ≤ m) (hon : onStep start m step = true) :
    stepUp start value step ≤ m := by
  rcases stepUp_eq hstep start value with ⟨rfl, hnext⟩ | ⟨n, hn, rfl, hnext⟩
  · rwa [hnext]
  · rw [onStep, beq_iff_eq] at hon
    have hmissing := missing_le (k := value - start) (x := m - value)
      (by rw [← hon]; congr 1; omega)
    omega

end

/-- `o` is the least value with a property from a value on, if there is one. -/
def IsLeast? {α : Type} [LE α] (P : α → Prop) (value : α) : Option α → Prop
  | some n => P n ∧ value ≤ n ∧ ∀ m, P m → value ≤ m → n ≤ m
  | none => ∀ m, P m → ¬ value ≤ m

/-- The least of the least values of several properties is the least value of any of them. -/
theorem isLeast_min? {α ι : Type} [LE α] [Min α] [Std.IsLinearOrder α] [Std.LawfulOrderMin α]
    {P : ι → α → Prop} {value : α} {next : ι → Option α} {items : List ι}
    (h : ∀ item ∈ items, IsLeast? (P item) value (next item)) :
    IsLeast? (fun m => ∃ item ∈ items, P item m) value (items.filterMap next).min? := by
  cases hmin : (items.filterMap next).min? with
  | none =>
    rw [List.min?_eq_none_iff, List.filterMap_eq_nil_iff] at hmin
    rintro m ⟨item, hmem, hm⟩
    have hnone := h item hmem
    rw [hmin item hmem] at hnone
    exact hnone m hm
  | some n =>
    obtain ⟨hmem, hleast⟩ := List.min?_eq_some_iff.mp hmin
    obtain ⟨item, hitem, hnext⟩ := List.mem_filterMap.mp hmem
    have hn := h item hitem
    rw [hnext] at hn
    refine ⟨⟨item, hitem, hn.1⟩, hn.2.1, ?_⟩
    rintro m ⟨other, hother, hm⟩ hle
    have hfirst := h other hother
    cases hfound : next other with
    | none =>
      rw [hfound] at hfirst
      exact absurd hle (hfirst m hm)
    | some k =>
      rw [hfound] at hfirst
      exact Std.IsPreorder.le_trans _ _ _
        (hleast k (List.mem_filterMap.mpr ⟨other, hother, hfound⟩))
        (hfirst.2.2 m hm hle)

section

variable {high value : Nat}

/-- The next value on a step, from a start to an end. -/
theorem isLeast_stepUp (start high : Nat) {step : Option Nat} (hstep : step ≠ some 0) :
    IsLeast? (fun m => start ≤ m ∧ m ≤ high ∧ onStep start m step = true) value
      (upTo high (stepUp start (max start value) step)) := by
  have hle : start ≤ max start value := Nat.le_max_left _ _
  have hnext := le_stepUp start (max start value) step
  have hleast : ∀ m, (start ≤ m ∧ m ≤ high ∧ onStep start m step = true) → value ≤ m →
      stepUp start (max start value) step ≤ m := fun m hm hvalue =>
    stepUp_le hstep hle (Nat.max_le.mpr ⟨hm.1, hvalue⟩) hm.2.2
  unfold upTo
  split_ifs with hhigh
  · exact ⟨⟨by omega, hhigh, onStep_stepUp hstep hle⟩, by omega, hleast⟩
  · intro m hm hvalue
    have := hleast m hm hvalue
    omega

theorem Item.isLeast_next? (low : Nat) {item : Item} (hstep : item.IsStepped)
    (hvalue : value ≤ high) :
    IsLeast? (fun m => item.allows low high m = true) value (item.next? low high value) := by
  cases item with
  | every step =>
    simpa only [Item.allows, Item.next?, Bool.and_eq_true, decide_eq_true_eq, and_assoc] using
      isLeast_stepUp low high hstep
  | range first last step =>
    simpa only [Item.allows, Item.next?, Bool.and_eq_true, decide_eq_true_eq, and_assoc] using
      isLeast_stepUp (max low first) (min high (last.getD high)) hstep
  | lastDay =>
    exact ⟨beq_self_eq_true high, hvalue, fun m hm _ =>
      Nat.le_of_eq (beq_iff_eq.mp hm).symm⟩

/-- **The next value of a field is the least that one of its items allows.** -/
theorem isLeast_nextValue (low : Nat) {items : List Item}
    (hstep : ∀ item ∈ items, item.IsStepped) (hvalue : value ≤ high) :
    IsLeast? (fun m => anyAllows low high m items = true) value
      (nextValue low high value items) := by
  have hleast := isLeast_min? fun item hitem =>
    Item.isLeast_next? low (hstep item hitem) hvalue
  simpa only [anyAllows, List.any_eq_true, nextValue] using hleast

end

/-! ### Items without a step of zero -/

section

variable {field : Field} {text : String} {item : Item} {step : Option Nat}

theorem checkStep_ok {x : Unit} (h : checkStep step = .ok x) : step ≠ some 0 := by
  rintro rfl
  cases h

theorem throw_bind {ε α β : Type} (e : ε) (f : α → Except ε β) :
    ((throw e : Except ε α) >>= f) = .error e :=
  rfl

/-- A range has the step that it is given. -/
theorem checkRange_ok {first : Nat} {last : Option Nat}
    (h : checkRange field text first last step = .ok item) :
    ∃ last, item = .range first last step := by
  refine ⟨last, ?_⟩
  unfold checkRange at h
  obtain ⟨_, _, h⟩ := bind_eq_ok.mp h
  cases last <;> simp only [throw_bind] at h <;> split_ifs at h
  all_goals
    obtain ⟨_, _, h⟩ := bind_eq_ok.mp h
    exact (Except.ok.inj h).symm

theorem makeRange_ok {first : Nat} {last : Option Nat}
    (h : makeRange field text first last step = .ok item) :
    ∃ first last, item = .range first last step := by
  unfold makeRange at h
  simp only at h
  split at h
  · split at h
    · cases h
    · exact ⟨first, checkRange_ok h⟩
  · exact ⟨first, checkRange_ok h⟩

theorem parseEvery_isStepped (h : parseEvery field text = some (.ok item)) : item.IsStepped := by
  unfold parseEvery at h
  obtain ⟨⟨body, digits⟩, _, h⟩ := Option.bind_eq_some_iff.mp h
  simp only at h
  split_ifs at h
  obtain ⟨step, _, h⟩ := bind_eq_ok.mp (Option.some_inj.mp h)
  obtain ⟨_, hstep, h⟩ := bind_eq_ok.mp h
  obtain ⟨_, _, h⟩ := bind_eq_ok.mp h
  obtain rfl := Except.ok.inj h
  exact checkStep_ok hstep

theorem parseNumbers_isStepped
    (h : parseNumbers field text = some (.ok item)) : item.IsStepped := by
  unfold parseNumbers at h
  obtain ⟨⟨body, digits⟩, _, h⟩ := Option.bind_eq_some_iff.mp h
  simp only at h
  split_ifs at h
  obtain ⟨step, _, h⟩ := bind_eq_ok.mp (Option.some_inj.mp h)
  obtain ⟨_, hstep, h⟩ := bind_eq_ok.mp h
  obtain ⟨_, _, h⟩ := bind_eq_ok.mp h
  obtain ⟨_, _, h⟩ := bind_eq_ok.mp h
  obtain ⟨first, last, rfl⟩ := makeRange_ok h
  exact checkStep_ok hstep

theorem parseNames_isStepped {names : List String} {unknown : String → Fault}
    (h : parseNames field names unknown text = some (.ok item)) : item.IsStepped := by
  unfold parseNames at h
  simp only at h
  split_ifs at h
  all_goals
    obtain ⟨_, _, h⟩ := bind_eq_ok.mp (Option.some_inj.mp h)
    obtain ⟨_, _, h⟩ := bind_eq_ok.mp h
    obtain ⟨first, last, rfl⟩ := makeRange_ok h
    exact fun h => nomatch h

theorem parseSpecial_isStepped
    (h : parseSpecial field text = some (.ok item)) : item.IsStepped := by
  unfold parseSpecial at h
  split at h
  · split_ifs at h
    obtain rfl := Except.ok.inj (Option.some_inj.mp h)
    trivial
  · exact parseNames_isStepped h
  · exact parseNames_isStepped h
  · cases h

/-- **The items of a field that can be read have no step of zero.** -/
theorem Item.parse_isStepped (h : Item.parse field text = .ok item) : item.IsStepped := by
  unfold Item.parse at h
  cases hevery : parseEvery field text with
  | some answer =>
    rw [hevery] at h
    obtain rfl : answer = .ok item := h
    exact parseEvery_isStepped hevery
  | none =>
  cases hnumbers : parseNumbers field text with
  | some answer =>
    rw [hevery, hnumbers] at h
    obtain rfl : answer = .ok item := h
    exact parseNumbers_isStepped hnumbers
  | none =>
  cases hspecial : parseSpecial field text with
  | some answer =>
    rw [hevery, hnumbers, hspecial] at h
    obtain rfl : answer = .ok item := h
    exact parseSpecial_isStepped hspecial
  | none =>
    rw [hevery, hnumbers, hspecial] at h
    cases h

end

/-! ### Schedules that can be read -/

theorem Fields.variant_ok {f : Fields} {v : Variant} (h : f.variant = .ok v) :
    Field.month.parse f.month = .ok v.month ∧ Field.day.parse f.day = .ok v.day ∧
      Field.weekday.parse f.weekday = .ok v.weekday ∧ Field.hour.parse f.hour = .ok v.hour ∧
      Field.minute.parse f.minute = .ok v.minute := by
  obtain ⟨month, hmonth, h⟩ := bind_eq_ok.mp h
  obtain ⟨day, hday, h⟩ := bind_eq_ok.mp h
  obtain ⟨weekday, hweekday, h⟩ := bind_eq_ok.mp h
  obtain ⟨hour, hhour, h⟩ := bind_eq_ok.mp h
  obtain ⟨minute, hminute, h⟩ := bind_eq_ok.mp h
  obtain rfl := Except.ok.inj h
  exact ⟨hmonth, hday, hweekday, hhour, hminute⟩

/-- The parts of an expression that can be read. -/
theorem Schedule.parse_ok {expression : String} {s : Schedule}
    (h : Schedule.parse expression = .ok s) :
    ∃ f names, Fields.split expression = .ok f ∧ translateWeekdays f.weekday = .ok names ∧
      (Fields.variants ⟨f.minute, f.hour, f.day, f.month, names⟩
        (isRestricted f.day && isRestricted f.weekday)).mapM Fields.variant = .ok s.variants := by
  obtain ⟨f, hsplit, h⟩ := bind_eq_ok.mp h
  obtain ⟨names, hnames, h⟩ := bind_eq_ok.mp h
  obtain ⟨variants, hvariants, h⟩ := bind_eq_ok.mp h
  obtain rfl := Except.ok.inj h
  exact ⟨f, names, hsplit, hnames, hvariants⟩

/-- A variant none of whose items has a step of zero. -/
def Variant.IsStepped (v : Variant) : Prop := ∀ p, ∀ item ∈ v.items p, item.IsStepped

theorem Field.parse_isStepped {field : Field} {text : String} {items : List Item}
    (h : field.parse text = .ok items) : ∀ item ∈ items, item.IsStepped := by
  intro item hitem
  obtain ⟨part, _, hpart⟩ := exists_of_mem_mapM h hitem
  exact Item.parse_isStepped hpart

/-- **The variants of a schedule that can be read have no step of zero.** -/
theorem Schedule.parse_isStepped {expression : String} {s : Schedule}
    (h : Schedule.parse expression = .ok s) : ∀ v ∈ s.variants, v.IsStepped := by
  obtain ⟨_, _, _, _, hvariants⟩ := Schedule.parse_ok h
  intro v hv
  obtain ⟨f, _, hf⟩ := exists_of_mem_mapM hvariants hv
  obtain ⟨hmonth, hday, hweekday, hhour, hminute⟩ := Fields.variant_ok hf
  intro p
  cases p with
  | year => simp [Variant.items, Item.IsStepped]
  | month => exact Field.parse_isStepped hmonth
  | day => exact Field.parse_isStepped hday
  | weekday => exact Field.parse_isStepped hweekday
  | hour => exact Field.parse_isStepped hhour
  | minute => exact Field.parse_isStepped hminute
  | second => simp [Variant.items, Item.IsStepped]

end Cadence.Cron
