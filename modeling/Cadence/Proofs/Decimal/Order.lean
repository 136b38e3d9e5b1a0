/-
The order of floating-point numbers.

All numbers but not-a-number stand in one order: smaller, equal or larger.  The comparisons
that a program can make all follow from it.

* `compare_swap`, `exists_compare` — the order, from either side;
* `decide_lt`, `decide_le`, `beq_eq` — the comparisons that follow from it.
-/
import Mathlib.Tactic.Common

namespace Cadence.Decimal

open Float.Model (UnpackedFloat)

/-- What is compared the other way round has the opposite order. -/
theorem compare_swap (a b : UnpackedFloat) : b.compare a = (a.compare b).map Ordering.swap := by
  cases a with
  | notANumber => cases b <;> rfl
  | infinity s =>
    cases b with
    | infinity t => cases s <;> cases t <;> rfl
    | _ => cases s <;> rfl
  | zero s =>
    cases b with
    | infinity t => cases t <;> rfl
    | finite t _ _ _ => cases t <;> rfl
    | _ => rfl
  | finite s m e _ =>
    cases b with
    | notANumber => rfl
    | infinity t => cases s <;> cases t <;> rfl
    | zero t => cases s <;> rfl
    | finite t n f _ =>
      have hback : (compare f e).then (compare n m) = ((compare e f).then (compare m n)).swap := by
        rw [Ordering.swap_then, Nat.compare_swap, Int.compare_swap]
      cases s with
      | negative =>
        cases t with
        | negative => exact congrArg (fun o : Ordering => some o.swap) hback
        | positive => rfl
      | positive =>
        cases t with
        | negative => rfl
        | positive => exact congrArg some hback

/-- Whatever is a number can be compared. -/
theorem exists_compare {a b : UnpackedFloat} (ha : a.isNaN = false) (hb : b.isNaN = false) :
    ∃ o, a.compare b = some o := by
  cases a with
  | notANumber => cases ha
  | infinity s =>
    cases b with
    | notANumber => cases hb
    | infinity t => exact ⟨_, rfl⟩
    | _ => cases s <;> exact ⟨_, rfl⟩
  | zero s =>
    cases b with
    | notANumber => cases hb
    | zero t => exact ⟨_, rfl⟩
    | infinity t => cases t <;> exact ⟨_, rfl⟩
    | finite t _ _ _ => cases t <;> exact ⟨_, rfl⟩
  | finite s _ _ _ =>
    cases b with
    | notANumber => cases hb
    | zero t => cases s <;> exact ⟨_, rfl⟩
    | infinity t => cases s <;> cases t <;> exact ⟨_, rfl⟩
    | finite t _ _ _ => cases s <;> cases t <;> exact ⟨_, rfl⟩

section

variable {x y : Float} {o : Ordering}

theorem exists_order (hx : x.isNaN = false) (hy : y.isNaN = false) :
    ∃ o, x.toModel.compare y.toModel = some o :=
  exists_compare hx hy

theorem order_swap (h : x.toModel.compare y.toModel = some o) :
    y.toModel.compare x.toModel = some o.swap :=
  (compare_swap x.toModel.unpack y.toModel.unpack).trans (congrArg (Option.map Ordering.swap) h)

theorem decide_lt (h : x.toModel.compare y.toModel = some o) : decide (x < y) = (o == .lt) := by
  have hlt : x.toModel.lt y.toModel = (o == .lt) := congrArg (· == some Ordering.lt) h
  rw [← hlt]
  show decide (decide (x.toModel.lt y.toModel = true) = true) = _
  rw [Bool.decide_eq_true, Bool.decide_eq_true]

theorem decide_le (h : x.toModel.compare y.toModel = some o) : decide (x ≤ y) = o.isLE := by
  have hle : x.toModel.le y.toModel = o.isLE := congrArg (Option.any Ordering.isLE) h
  rw [← hle]
  show decide (decide (x.toModel.le y.toModel = true) = true) = _
  rw [Bool.decide_eq_true, Bool.decide_eq_true]

theorem beq_eq (h : x.toModel.compare y.toModel = some o) : (x == y) = (o == .eq) :=
  congrArg (· == some Ordering.eq) h

end

end Cadence.Decimal
