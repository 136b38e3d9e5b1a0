/-
The operators of rules, and how they agree.

A rule compares two numbers or two texts.  Either way the two stand in one order, and from
this order all six operators are answered, so that they cannot contradict each other.

* `Comparison.admits` — whether an operator holds in an order;
* `Comparison.numbers_eq`, `Comparison.exists_text_order` — numbers and texts are compared
  by their order;
* `Comparison.values_null`, `Comparison.values_short`, `Comparison.values_long` — what the
  operators answer of a value and a target;
* `Comparison.Opposed`, `Comparison.Trichotomy` — answers that agree with each other;
* **`Rule.operators_agree`** — the answers of the six operators agree, and so do the two
  ways to join rules.
-/
import Cadence.Proofs.Decimal.Order
import Cadence.Proofs.Decimal.Whole
import Cadence.Proofs.Run.ShortResults
import Cadence.Proofs.Template.Pieces

namespace Cadence

namespace Comparison

/-! ### Operators and orders -/

/-- The operator that holds where this one does not. -/
def opposite : Comparison → Comparison
  | .eq => .ne
  | .ne => .eq
  | .lt => .ge
  | .ge => .lt
  | .gt => .le
  | .le => .gt

/-- Whether an operator holds of two things that stand in an order. -/
def admits : Comparison → Ordering → Bool
  | .eq, o => o == .eq
  | .ne, o => o != .eq
  | .lt, o => o == .lt
  | .gt, o => o == .gt
  | .le, o => o != .gt
  | .ge, o => o != .lt

/-- Numbers are compared by their order. -/
theorem numbers_eq {x y : Float} {o : Ordering} (h : x.toModel.compare y.toModel = some o)
    (op : Comparison) :
    op.numbers x y = op.admits o := by
  have hback := Decimal.order_swap h
  cases op with
  | eq => exact Decimal.beq_eq h
  | ne => exact congrArg (!·) (Decimal.beq_eq h)
  | lt => exact Decimal.decide_lt h
  | gt => exact (Decimal.decide_lt hback).trans (by cases o <;> rfl)
  | le => exact (Decimal.decide_le h).trans (by cases o <;> rfl)
  | ge => exact (Decimal.decide_le hback).trans (by cases o <;> rfl)

/-- Texts are compared by their order. -/
theorem exists_text_order (s t : String) : ∃ o, ∀ op : Comparison, op.texts s t = op.admits o := by
  by_cases hlt : s < t
  · have hne : s ≠ t := by
      rintro rfl
      exact String.lt_irrefl s hlt
    have hgt : ¬ t < s := String.lt_asymm hlt
    refine ⟨.lt, fun op => ?_⟩
    cases op <;> simp [texts, admits, hlt, hne, hgt, bne]
  · by_cases heq : s = t
    · subst heq
      refine ⟨.eq, fun op => ?_⟩
      cases op <;> simp [texts, admits, bne]
    · have hgt : t < s := by
        by_contra h
        exact heq (String.le_antisymm (String.not_lt.mp h) (String.not_lt.mp hlt))
      refine ⟨.gt, fun op => ?_⟩
      cases op <;> simp [texts, admits, hlt, heq, hgt, bne]

/-! ### Answers -/

/-- Opposite operators have opposite answers. -/
def Opposed (answers : Comparison → Bool) : Prop := ∀ op, answers op.opposite = !answers op

/-- Just one of smaller, equal and larger holds, and the two operators that allow equality
hold accordingly. -/
structure Trichotomy (answers : Comparison → Bool) : Prop where
  one : ∃! op, (op = .lt ∨ op = .eq ∨ op = .gt) ∧ answers op = true
  le : answers .le = (answers .lt || answers .eq)
  ge : answers .ge = (answers .gt || answers .eq)

theorem opposed_admits (o : Ordering) : Opposed (·.admits o) := by
  intro op
  cases op <;> cases o <;> rfl

/-- Of the three operators the one that names the order holds. -/
theorem trichotomy_admits (o : Ordering) : Trichotomy (·.admits o) where
  one := by
    cases o with
    | lt =>
      exact ⟨.lt, ⟨Or.inl rfl, rfl⟩, by rintro op ⟨rfl | rfl | rfl, h⟩ <;>
        first | rfl | cases h⟩
    | eq =>
      exact ⟨.eq, ⟨Or.inr (Or.inl rfl), rfl⟩, by rintro op ⟨rfl | rfl | rfl, h⟩ <;>
        first | rfl | cases h⟩
    | gt =>
      exact ⟨.gt, ⟨Or.inr (Or.inr rfl), rfl⟩, by rintro op ⟨rfl | rfl | rfl, h⟩ <;>
        first | rfl | cases h⟩
  le := by cases o <;> rfl
  ge := by cases o <;> rfl

/-- The answers about nothing: it is equal to nothing, and otherwise ordered like the empty text. -/
def absent (target : Json) : Comparison → Bool
  | .eq => false
  | .ne => true
  | op => op.texts "" target.text

theorem opposed_absent (target : Json) : Opposed (absent target) := by
  obtain ⟨o, ho⟩ := exists_text_order "" target.text
  intro op
  cases op with
  | eq => rfl
  | ne => rfl
  | _ =>
    simp only [absent, opposite, ho]
    cases o <;> rfl

end Comparison

/-- What a value reads as is a number. -/
theorem number?_isNaN {v : Json} {x : Float} (h : number? v = .ok (some x)) : x.isNaN = false := by
  cases v with
  | bool b =>
    obtain rfl := Option.some.inj (Except.ok.inj h)
    cases b <;> rfl
  | int n =>
    unfold number? at h
    dsimp only at h
    split at h
    · cases h
    · next hinf =>
      obtain rfl := Option.some.inj (Except.ok.inj h)
      exact Decimal.nearestInt_isNaN
        (Nat.lt_of_not_le fun hle => hinf (Decimal.nearestInt_isInf hle))
  | float y =>
    have hkept : (if y.isNaN then none else some y) = some x := Except.ok.inj h
    split at hkept
    · cases hkept
    · next hnan =>
      obtain rfl := Option.some.inj hkept
      exact Bool.eq_false_iff.mpr hnan
  | str s =>
    have hkept := (Option.filter_eq_some_iff.mp (Except.ok.inj h)).2
    exact Bool.not_eq_true' _ |>.mp hkept
  | null => cases h
  | arr items => cases h
  | obj members => cases h

/-! ### Texts -/

/-- An integer within the range of floating-point numbers can be written. -/
theorem Json.isShort_int {n : Int} (h : n.natAbs < Decimal.floatBound) :
    (Json.int n).isShort = true :=
  decide_eq_true (Nat.le_trans (Decimal.length_toDigits_of_lt_floatBound h) (by decide))

/-- A value that reads as a number can be written. -/
theorem isShort_of_number? {v : Json} {x : Float} (h : number? v = .ok (some x)) :
    v.isShort = true := by
  cases v with
  | int n =>
    unfold number? at h
    dsimp only at h
    split at h
    · cases h
    · next hinf =>
      exact Json.isShort_int (Nat.lt_of_not_le fun hle => hinf (Decimal.nearestInt_isInf hle))
  | arr items => cases h
  | obj members => cases h
  | _ => rfl

/-- A target that is read, as a number or as none, can be written. -/
theorem Scalar.isShort_of_number? {target : Scalar} {y : Option Float}
    (h : number? target.toJson = .ok y) :
    target.toJson.isShort = true := by
  cases target with
  | int n =>
    have hsome : ∃ x, number? (.int n) = .ok (some x) := by
      rw [Scalar.toJson] at h
      unfold number? at h ⊢
      dsimp only at h ⊢
      split at h
      · cases h
      · next hinf => exact ⟨_, if_neg hinf⟩
    obtain ⟨x, hx⟩ := hsome
    exact Cadence.isShort_of_number? hx
  | float x => rfl
  | text s => rfl

namespace Comparison

section

variable {value target : Json} {x y : Option Float} (hx : number? value = .ok x)
  (hy : number? target = .ok y) (htarget : target.isShort = true)

include hy htarget

/-- What the operators answer about nothing. -/
theorem values_null (op : Comparison) : op.values .null target = .ok (absent target op) := by
  have hnull : number? .null = .ok none := rfl
  simp only [values, hnull, hy, ok_bind]
  cases op with
  | eq => rfl
  | ne => rfl
  | _ =>
    dsimp only
    rw [Json.shown_of_short htarget]
    rfl

include hx

/-- Where the two are not both numbers, the operators compare texts. -/
theorem values_texts (hnumbers : ∀ a b, ¬(x = some a ∧ y = some b)) (hvalue : value ≠ .null)
    (op : Comparison) :
    op.values value target = (value.shown.mapError .text).map fun s => op.texts s target.text := by
  simp only [values, hx, hy, ok_bind]
  split
  · next a b => exact absurd ⟨rfl, rfl⟩ (hnumbers a b)
  · split
    · exact absurd rfl hvalue
    · exact absurd rfl hvalue
    · exact absurd rfl hvalue
    · rw [Json.shown_of_short htarget]
      cases value.shown <;> rfl

/-- What the operators answer about a value that is present: they go by one order, if the
value can be written. -/
theorem values_short (hvalue : value ≠ .null) (hshort : value.isShort = true) :
    ∃ o, ∀ op : Comparison, op.values value target = .ok (op.admits o) := by
  obtain ⟨o, ho⟩ := exists_text_order value.text target.text
  have htexts (hnumbers : ∀ a b, ¬(x = some a ∧ y = some b)) :
      ∃ o, ∀ op : Comparison, op.values value target = .ok (op.admits o) := by
    refine ⟨o, fun op => ?_⟩
    rw [values_texts hx hy htarget hnumbers hvalue, Json.shown_of_short hshort]
    exact congrArg Except.ok (ho op)
  cases x with
  | none => exact htexts nofun
  | some a =>
    cases y with
    | none => exact htexts nofun
    | some b =>
      obtain ⟨o, ho⟩ := Decimal.exists_order (number?_isNaN hx) (number?_isNaN hy)
      refine ⟨o, fun op => ?_⟩
      simp only [values, hx, hy, ok_bind]
      exact congrArg Except.ok (numbers_eq ho op)

/-- About a value that cannot be written no operator has an answer: it is no number, and it
has no text. -/
theorem values_long (hlong : value.isShort = false) (op : Comparison) :
    op.values value target = .error (.text .unwritable) := by
  have hnumbers : ∀ a b, ¬(x = some a ∧ y = some b) := by
    rintro a b ⟨rfl, -⟩
    cases hlong.symm.trans (isShort_of_number? hx)
  have hvalue : value ≠ .null := by
    rintro rfl
    cases hlong
  rw [values_texts hx hy htarget hnumbers hvalue, Json.shown_of_long hlong]
  rfl

/-- If the coercions of a value and a target succeed and the value can be written, all
operators have answers, and these agree. -/
theorem exists_answers (hshort : value.isShort = true) :
    ∃ answers, (∀ op : Comparison, op.values value target = .ok (answers op)) ∧ Opposed answers ∧
      (value ≠ .null → Trichotomy answers) := by
  by_cases hvalue : value = .null
  · subst hvalue
    exact ⟨_, values_null hy htarget, opposed_absent target, fun h => absurd rfl h⟩
  · obtain ⟨o, ho⟩ := values_short hx hy htarget hvalue hshort
    exact ⟨_, ho, opposed_admits o, fun _ => trichotomy_admits o⟩

end

/-- The opposite operator has the opposite answer, and the same fault. -/
theorem values_opposite (op : Comparison) (value : Json) (target : Scalar) :
    op.opposite.values value target.toJson = (op.values value target.toJson).map (!·) := by
  cases hx : number? value with
  | error fault =>
    simp only [values, hx, error_bind]
    rfl
  | ok x =>
    cases hy : number? target.toJson with
    | error fault =>
      simp only [values, hx, hy, ok_bind, error_bind]
      rfl
    | ok y =>
      have htarget := Scalar.isShort_of_number? hy
      cases hshort : value.isShort with
      | true =>
        obtain ⟨answers, hanswers, hopposed, -⟩ := exists_answers hx hy htarget hshort
        rw [hanswers, hanswers, hopposed, Except.map]
      | false =>
        rw [values_long hx hy htarget hshort, values_long hx hy htarget hshort]
        rfl

end Comparison

/-! ### Rules -/

namespace Rule

/-- The rule with the opposite operator. -/
def opposite (rule : Rule) : Rule := { rule with operator := rule.operator.opposite }

/-- A rule is decided by the value at its path. -/
theorem holds_of_looked {rule : Rule} {results : Results} {value : Json}
    (h : (Json.obj results).lookupOrNull rule.input = .ok value) :
    rule.holds results = rule.operator.values value rule.target.toJson := by
  simp only [holds, h, Except.mapError, ok_bind]

theorem holds_of_refused {rule : Rule} {results : Results} {fault : Decimal.IntegerFault}
    (h : (Json.obj results).lookupOrNull rule.input = .error fault) :
    rule.holds results = .error (.path fault) := by
  simp only [holds, h, Except.mapError, error_bind]

/-- The rule with the opposite operator has the opposite answer, and the same fault. -/
theorem holds_opposite (rule : Rule) (results : Results) :
    rule.opposite.holds results = (rule.holds results).map (!·) := by
  cases hlooked : (Json.obj results).lookupOrNull rule.input with
  | error fault =>
    have hopposite : rule.opposite.holds results = .error (.path fault) := holds_of_refused hlooked
    rw [hopposite, holds_of_refused hlooked, Except.map]
  | ok value =>
    have hopposite : rule.opposite.holds results =
        rule.operator.opposite.values value rule.target.toJson :=
      holds_of_looked hlooked
    rw [hopposite, holds_of_looked hlooked]
    exact Comparison.values_opposite rule.operator value rule.target

end Rule

/-! ### Several rules -/

/-- The other way to join. -/
def Mode.opposite : Mode → Mode
  | .all => .any
  | .any => .all

theorem Mode.combine_not (mode : Mode) (bs : List Bool) :
    mode.opposite.combine (bs.map (!·)) = !mode.combine bs := by
  cases mode with
  | all => simp [opposite, combine, List.not_all_eq_any_not]
  | any => simp [opposite, combine, List.not_any_eq_all_not]

/-- Opposite rules are decided oppositely, one after the other. -/
theorem mapM_holds_opposite (rules : List Rule) (results : Results) :
    (rules.map Rule.opposite).mapM (fun rule : Rule => rule.holds results) =
      (rules.mapM fun rule : Rule => rule.holds results).map (·.map (!·)) := by
  induction rules with
  | nil => rfl
  | cons rule rules ih =>
    rw [List.map_cons, List.mapM_cons, List.mapM_cons, ih, Rule.holds_opposite]
    cases rule.holds results with
    | error fault => rfl
    | ok b => cases rules.mapM fun rule : Rule => rule.holds results <;> rfl

/-- Opposite rules joined the other way have the opposite answer, and the same fault. -/
theorem Mode.holds_opposite (mode : Mode) (rules : List Rule) (results : Results) :
    mode.opposite.holds (rules.map Rule.opposite) results =
      (mode.holds rules results).map (!·) := by
  simp only [holds, mapM_holds_opposite]
  cases rules.mapM fun rule : Rule => rule.holds results with
  | error fault => rfl
  | ok bs => exact congrArg Except.ok (combine_not mode bs)

end Cadence
