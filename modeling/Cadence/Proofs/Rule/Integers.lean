/-
Integers in rules.

Both sides of a rule are compared as floating-point numbers.  Integers beyond 53 binary
digits are rounded before they are compared, so that two of them that differ can count as
equal.

* `Comparison.integers` — whether an operator holds of two integers;
* `Json.WritesInt` — an integer as a value: a number or its decimal text;
* `Comparison.integers_rounded` — when rounding does not change what the operators answer;
* **`Rule.holds_integers`** — what a rule answers of two integers, and when the answers are exact.
-/
import Cadence.Proofs.Rule.Operators

namespace Cadence

open Decimal

/-- Whether an operator holds of two integers. -/
def Comparison.integers : Comparison → Int → Int → Bool
  | .eq, a, b => a == b
  | .ne, a, b => a != b
  | .lt, a, b => a < b
  | .gt, a, b => b < a
  | .le, a, b => a ≤ b
  | .ge, a, b => b ≤ a

/-- A value that is an integer, as a number or as its decimal text. -/
inductive Json.WritesInt (n : Int) : Json → Prop
  | int : WritesInt n (.int n)
  | text : WritesInt n (.str (Json.int n).text)

namespace Comparison

variable {a b : Int}

theorem integers_eq (op : Comparison) (a b : Int) : op.integers a b = op.admits (compare a b) := by
  rcases Int.lt_trichotomy a b with h | rfl | h
  · have hne : a ≠ b := Int.ne_of_lt h
    have hback : ¬ b < a := Int.lt_asymm h
    rw [Int.compare_eq_lt.mpr h]
    cases op <;> simp [integers, admits, bne, h, hne, hback, Int.le_of_lt h, Int.not_le.mpr h]
  · rw [Int.compare_eq_eq.mpr (rfl : a = a)]
    cases op <;> simp [integers, admits]
  · have hne : a ≠ b := Int.ne_of_gt h
    have hback : ¬ a < b := Int.lt_asymm h
    rw [Int.compare_eq_gt.mpr h]
    cases op <;> simp [integers, admits, bne, h, hne, hback, Int.le_of_lt h, Int.not_le.mpr h]

/-- Rounding keeps the order of two integers, unless it makes them equal. -/
theorem compare_rounded (h : rounded a ≠ rounded b) :
    compare (rounded a) (rounded b) = compare a b := by
  rcases Int.lt_trichotomy a b with hlt | rfl | hlt
  · have hle := rounded_mono (Int.le_of_lt hlt)
    rw [Int.compare_eq_lt.mpr hlt, Int.compare_eq_lt.mpr (by omega)]
  · exact absurd rfl h
  · have hle := rounded_mono (Int.le_of_lt hlt)
    rw [Int.compare_eq_gt.mpr hlt, Int.compare_eq_gt.mpr (by omega)]

/-- **Rounding does not change what the operators answer just if it does not make two
integers equal.** -/
theorem integers_rounded :
    (∀ op : Comparison, op.integers (rounded a) (rounded b) = op.integers a b) ↔ a = b ∨
      rounded a ≠ rounded b := by
  constructor
  · intro h
    by_cases hab : rounded a = rounded b
    · have heq : (rounded a == rounded b) = (a == b) := h .eq
      rw [hab, beq_self_eq_true] at heq
      exact Or.inl (beq_iff_eq.mp heq.symm)
    · exact Or.inr hab
  · rintro (rfl | hne) op
    · rw [integers_eq, integers_eq, Int.compare_eq_eq.mpr rfl, Int.compare_eq_eq.mpr rfl]
    · rw [integers_eq, integers_eq, compare_rounded hne]

end Comparison

/-- An integer in range is read as the nearest floating-point number, however it is written. -/
theorem Json.WritesInt.number?_eq {n : Int} {v : Json} (hv : v.WritesInt n)
    (hn : n.natAbs < floatBound) :
    number? v = .ok (some (nearestInt n)) := by
  cases hv with
  | int =>
    have hinf : ¬(nearestInt n).isInf = true := fun h =>
      Nat.not_le_of_lt hn (nearestInt_isInf_iff.mp h)
    exact if_neg hinf
  | text =>
    show Except.ok ((float? (Json.int n).text).filter _) = _
    rw [float?_text, Option.filter_some, nearestInt_isNaN hn]
    rfl

theorem Comparison.values_integers {a b : Int} {value target : Json} (op : Comparison)
    (ha : a.natAbs < floatBound) (hb : b.natAbs < floatBound) (hvalue : value.WritesInt a)
    (htarget : target.WritesInt b) :
    op.values value target = .ok (op.integers (rounded a) (rounded b)) := by
  simp only [values, hvalue.number?_eq ha, htarget.number?_eq hb, ok_bind]
  rw [numbers_eq (compare_nearestInt ha hb), integers_eq]
  rfl

/-- **What a rule answers of two integers**, numbers or decimal texts. The operator is
answered of the integers rounded to 53 binary digits. So all six operators answer as the
integers themselves stand just if the integers are equal or are not made equal by rounding;
up to `2 ^ 53` nothing is rounded. -/
theorem Rule.holds_integers {rule : Rule} {results : Results} {a b : Int} {value : Json}
    (ha : a.natAbs < 2 ^ 1000) (hb : b.natAbs < 2 ^ 1000)
    (hlooked : (Json.obj results).lookupOrNull rule.input = .ok value)
    (hvalue : value.WritesInt a) (htarget : rule.target.toJson.WritesInt b) :
    rule.holds results = .ok (rule.operator.integers (rounded a) (rounded b)) ∧
    ((∀ op, ({ rule with operator := op } : Rule).holds results = .ok (op.integers a b)) ↔
      a = b ∨ rounded a ≠ rounded b) ∧
    (a.natAbs ≤ 2 ^ 53 → b.natAbs ≤ 2 ^ 53 →
        rule.holds results = .ok (rule.operator.integers a b)) := by
  have hrange : 2 ^ 1000 ≤ floatBound :=
    two_pow_le_floatBound (k := 1000) (by rw [maxDigits_eq]; decide)
  have hholds (op : Comparison) : ({ rule with operator := op } : Rule).holds results =
      .ok (op.integers (rounded a) (rounded b)) := by
    have hvalues : ({ rule with operator := op } : Rule).holds results =
        op.values value rule.target.toJson :=
      holds_of_looked hlooked
    rw [hvalues]
    exact op.values_integers (Nat.lt_of_lt_of_le ha hrange) (Nat.lt_of_lt_of_le hb hrange)
      hvalue htarget
  refine ⟨hholds rule.operator, ?_, fun hexact hexact' => ?_⟩
  · rw [← Comparison.integers_rounded]
    simp only [hholds, Except.ok.injEq]
  · have hsame := hholds rule.operator
    rw [rounded_of_le hexact, rounded_of_le hexact'] at hsame
    exact hsame

/-- Two integers beyond 53 binary digits that differ, and count as equal. -/
theorem Rule.holds_integers_rounded :
    (Rule.mk "x" .eq (.int 9007199254740992)).holds [("x", .int 9007199254740993)] = .ok true := by
  have hmore {n k : Nat} (hk : 54 ≤ k) (h : n < 2 ^ 54) : n < 2 ^ k :=
    Nat.lt_of_lt_of_le h (Nat.pow_le_pow_right (by decide) hk)
  have hrange {n : Nat} (h : n < 2 ^ 54) : n < 2 ^ 1000 := hmore (k := 1000) (by decide) h
  have hholds : (Rule.mk "x" .eq (.int 9007199254740992)).holds [("x", .int 9007199254740993)] =
      .ok (Comparison.eq.integers (rounded 9007199254740993) (rounded 9007199254740992)) :=
    (Rule.holds_integers (hrange (by decide)) (hrange (by decide)) rfl .int .int).1
  exact hholds.trans (by decide)

end Cadence
