/-
Rounding to 53 binary digits.

A floating-point number is worked out with as many digits as it takes, and is then rounded
to the nearest number of 53 binary digits; of two that are equally near, to the even one.

* `roundShift` — the last digits of a number rounded away, with its bounds and its monotony;
* `ShiftsTo.roundedMantissa` — the arithmetic of floating-point numbers rounds in just this way;
* `IsNormal`, `roundWithAccuracy_isNormal` — what a number is after it was rounded;
* `unpack_pack_finite`, `unpack_pack_infinity` — what is left of it in 64 bits.
-/
import Mathlib.Algebra.Order.Group.Nat
import Mathlib.Algebra.Ring.Nat
import Mathlib.Tactic.Common
import Mathlib.Tactic.SplitIfs

namespace Cadence.Decimal

open Float.Model Float.Model.UnpackedFloat

/-! ### Rounding whole numbers -/

/-- The whole number nearest to `n / 2 ^ k`; of two that are equally near, the even one. -/
def roundShift (n k : Nat) : Nat :=
  let q := n / 2 ^ k
  let r := n % 2 ^ k
  if 2 * r < 2 ^ k then q else if 2 * r = 2 ^ k then q + q % 2 else q + 1

theorem roundShift_bounds (n k : Nat) :
    n / 2 ^ k ≤ roundShift n k ∧ roundShift n k ≤ n / 2 ^ k + 1 := by
  unfold roundShift
  dsimp only
  split_ifs <;> omega

theorem roundShift_mul (n k j : Nat) : roundShift (n * 2 ^ j) (k + j) = roundShift n k := by
  have hpos : 0 < 2 ^ j := Nat.two_pow_pos j
  have hdiv : n * 2 ^ j / 2 ^ (k + j) = n / 2 ^ k := by
    rw [Nat.pow_add, Nat.mul_div_mul_right _ _ hpos]
  have hmod : n * 2 ^ j % 2 ^ (k + j) = n % 2 ^ k * 2 ^ j := by
    rw [Nat.pow_add, Nat.mul_mod_mul_right]
  unfold roundShift
  dsimp only
  rw [hdiv, hmod, Nat.pow_add, ← Nat.mul_assoc]
  simp only [Nat.mul_lt_mul_right hpos, Nat.mul_left_inj (Nat.ne_of_gt hpos)]

/-- What can be divided is not rounded. -/
theorem roundShift_mul_add (n k j : Nat) : roundShift (n * 2 ^ (k + j)) k = n * 2 ^ j := by
  have hpow : n * 2 ^ (k + j) = n * 2 ^ j * 2 ^ k := by
    rw [Nat.pow_add, Nat.mul_assoc, Nat.mul_comm (2 ^ k)]
  have hpos : 0 < 2 ^ k := Nat.two_pow_pos k
  unfold roundShift
  rw [hpow, Nat.mul_mod_left, Nat.mul_div_cancel _ hpos]
  simp

@[simp] theorem roundShift_zero (n : Nat) : roundShift n 0 = n := by
  simpa using roundShift_mul_add n 0 0

theorem roundShift_mono {n m : Nat} (k : Nat) (h : n ≤ m) : roundShift n k ≤ roundShift m k := by
  have hdiv : n / 2 ^ k ≤ m / 2 ^ k := Nat.div_le_div_right h
  rcases Nat.lt_or_eq_of_le hdiv with hlt | heq
  · have hn := (roundShift_bounds n k).2
    have hm := (roundShift_bounds m k).1
    omega
  · have hn := Nat.div_add_mod n (2 ^ k)
    have hm := Nat.div_add_mod m (2 ^ k)
    rw [heq] at hn
    unfold roundShift
    dsimp only
    rw [heq]
    split_ifs <;> omega

theorem roundShift_two_pow (k j : Nat) : roundShift (2 ^ (k + j)) k = 2 ^ j := by
  simpa using roundShift_mul_add 1 k j

/-- A number of which 53 digits are kept is rounded to a number with 53 digits, or to the
first one with more. -/
theorem roundShift_digits {n : Nat} (hn : 2 ^ 52 ≤ n) :
    2 ^ 52 ≤ roundShift n (n.log2 - 52) ∧ roundShift n (n.log2 - 52) ≤ 2 ^ 53 := by
  have hne : n ≠ 0 := by omega
  obtain ⟨k, hk⟩ := Nat.exists_eq_add_of_le ((Nat.le_log2 hne).mpr hn)
  have hlo : 2 ^ (k + 52) ≤ n := Nat.add_comm k 52 ▸ hk ▸ Nat.log2_self_le hne
  have hhi : n ≤ 2 ^ (k + 53) := by
    rw [show k + 53 = n.log2 + 1 by omega]
    exact Nat.le_of_lt Nat.lt_log2_self
  rw [show n.log2 - 52 = k by omega]
  constructor
  · calc 2 ^ 52 = roundShift (2 ^ (k + 52)) k := (roundShift_two_pow k 52).symm
      _ ≤ roundShift n k := roundShift_mono k hlo
  · calc roundShift n k ≤ roundShift (2 ^ (k + 53)) k := roundShift_mono k hhi
      _ = 2 ^ 53 := roundShift_two_pow k 53

/-- Which numbers are rounded to one with more binary digits than those that are kept: of
the last one below, the second half. -/
theorem two_pow_le_roundShift {n k p t : Nat} (ht : t = p + 1 + (k + 1)) :
    2 ^ (p + 1) ≤ roundShift n (k + 1) ↔ 2 ^ t ≤ n + 2 ^ k := by
  have hsplit := Nat.div_add_mod' n (2 ^ (k + 1))
  have hlt : n % 2 ^ (k + 1) < 2 ^ (k + 1) := Nat.mod_lt _ (Nat.two_pow_pos _)
  have hhalf : 2 ^ (k + 1) = 2 * 2 ^ k := by rw [Nat.pow_succ, Nat.mul_comm]
  have heven : 2 ^ (p + 1) = 2 * 2 ^ p := by rw [Nat.pow_succ, Nat.mul_comm]
  have hpos : 0 < 2 ^ p := Nat.two_pow_pos p
  have hbounds := roundShift_bounds n (k + 1)
  have htotal : 2 ^ t = 2 ^ (p + 1) * 2 ^ (k + 1) := by rw [ht, Nat.pow_add]
  rw [htotal]
  rcases Nat.lt_trichotomy (n / 2 ^ (k + 1) + 1) (2 ^ (p + 1)) with hq | hq | hq
  · have hprod := Nat.mul_le_mul_right (2 ^ (k + 1))
      (show n / 2 ^ (k + 1) + 1 + 1 ≤ 2 ^ (p + 1) from hq)
    rw [Nat.add_mul, Nat.add_mul] at hprod
    omega
  · have hprod := congrArg (· * 2 ^ (k + 1)) hq
    simp only [Nat.add_mul] at hprod
    unfold roundShift
    dsimp only
    split_ifs <;> omega
  · have hprod := Nat.mul_le_mul_right (2 ^ (k + 1)) (show 2 ^ (p + 1) ≤ n / 2 ^ (k + 1) by omega)
    omega

/-! ### Shifts -/

/-- What is left of a row of binary digits when the last `k` of them are shifted out: what
stands before them, whether they are at least a half, and whether they are anything else
than nothing and a half. -/
structure ShiftsTo (n k : Nat) (em : ExtendedMantissa) : Prop where
  mantissa : em.mantissa = n / 2 ^ k
  round : em.roundBit = decide (2 ^ k ≤ 2 * (n % 2 ^ k))
  sticky : em.stickyBit = decide (n % 2 ^ k ≠ 0 ∧ 2 * (n % 2 ^ k) ≠ 2 ^ k)

theorem ShiftsTo.succ {n k : Nat} {em : ExtendedMantissa} (h : ShiftsTo n k em) :
    ShiftsTo n (k + 1) em.shiftRightOne := by
  have hpow : 2 ^ (k + 1) = 2 * 2 ^ k := by rw [Nat.pow_succ, Nat.mul_comm]
  have hmod : n % 2 ^ (k + 1) = n % 2 ^ k + 2 ^ k * (n / 2 ^ k % 2) := by
    rw [Nat.pow_succ, Nat.mod_mul]
  have hlt : n % 2 ^ k < 2 ^ k := Nat.mod_lt _ (Nat.two_pow_pos k)
  refine ⟨?_, ?_, ?_⟩
  · show em.mantissa / 2 = _
    rw [h.mantissa, Nat.div_div_eq_div_mul, Nat.pow_succ]
  · show (em.mantissa % 2 != 0) = _
    rw [h.mantissa, hmod, hpow]
    rcases Nat.mod_two_eq_zero_or_one (n / 2 ^ k) with hbit | hbit
    · rw [hbit]
      exact (decide_eq_false (by omega)).symm
    · rw [hbit]
      exact (decide_eq_true (by omega)).symm
  · show (em.roundBit || em.stickyBit) = _
    rw [h.round, h.sticky, hmod, hpow, ← Bool.decide_or, decide_eq_decide]
    rcases Nat.mod_two_eq_zero_or_one (n / 2 ^ k) with hbit | hbit <;> rw [hbit] <;> omega

theorem shiftsTo_shiftRight (n k : Nat) :
    ShiftsTo n k (ExtendedMantissa.ofMantissaAndAccuracy n .exact >>> k) := by
  induction k with
  | zero =>
    have hmod : n % 2 ^ 0 = 0 := Nat.mod_one n
    refine ⟨(Nat.div_one n).symm, ?_, ?_⟩
    · rw [hmod]
      rfl
    · rw [hmod]
      rfl
  | succ k ih => exact ih.succ

/-- The digits that are shifted out are rounded to the nearest whole number. -/
theorem ShiftsTo.roundedMantissa {n k : Nat} {em : ExtendedMantissa} (h : ShiftsTo n k em) :
    em.roundedMantissa = roundShift n k := by
  have hlt : n % 2 ^ k < 2 ^ k := Nat.mod_lt _ (Nat.two_pow_pos k)
  obtain ⟨m, round, sticky⟩ := em
  obtain ⟨rfl, rfl, rfl⟩ : m = _ ∧ round = _ ∧ sticky = _ := ⟨h.mantissa, h.round, h.sticky⟩
  unfold ExtendedMantissa.roundedMantissa ExtendedMantissa.accuracy roundShift
  dsimp only
  by_cases hhalf : 2 ^ k ≤ 2 * (n % 2 ^ k)
  · by_cases hsticky : n % 2 ^ k ≠ 0 ∧ 2 * (n % 2 ^ k) ≠ 2 ^ k
    · rw [decide_eq_true hhalf, decide_eq_true hsticky, if_neg (by omega), if_neg hsticky.2]
      rfl
    · rw [decide_eq_true hhalf, decide_eq_false hsticky, if_neg (by omega), if_pos (by omega)]
      rfl
  · rw [decide_eq_false hhalf, if_pos (by omega)]
    cases decide (n % 2 ^ k ≠ 0 ∧ 2 * (n % 2 ^ k) ≠ 2 ^ k) <;> rfl

/-! ### Normal numbers -/

/-- The number `q * 2 ^ e` in its normal form, where `q` has 53 binary digits or is the
first number with more. -/
inductive IsNormal (s : Sign) (q : Nat) (e : Int) : UnpackedFloat → Prop where
  | same (lo : 2 ^ 52 ≤ q) (hi : q < 2 ^ 53) (pos : 0 < q) : IsNormal s q e (.finite s q e pos)
  | carry (top : q = 2 ^ 53) (pos : 0 < 2 ^ 52) : IsNormal s q e (.finite s (2 ^ 52) (e + 1) pos)

theorem shiftToTargetExponent_eq {M : Nat} {E : Int} (hM : 2 ^ 52 ≤ M)
    (hE : -1074 ≤ E + (M.log2 - 52 : Nat)) :
    shiftToTargetExponent .binary64 M E .exact =
      (ExtendedMantissa.ofMantissaAndAccuracy M .exact >>> (M.log2 - 52),
        E + (M.log2 - 52 : Nat)) := by
  have hlog : 52 ≤ M.log2 := (Nat.le_log2 (by omega)).mpr hM
  have htarget : Format.binary64.targetExponent (totalExponent M E) = E + (M.log2 - 52 : Nat) := by
    have hbits : Format.binary64.mantissaBits = 53 := rfl
    have hmin : Format.binary64.minExponent = -1074 := rfl
    rw [Format.targetExponent, totalExponent, hbits, hmin]
    omega
  have hshift : (E + (M.log2 - 52 : Nat) - E).toNat = M.log2 - 52 := by omega
  unfold shiftToTargetExponent shiftToExponent
  rw [htarget]
  dsimp only
  rw [hshift]

theorem log2_of_bounds {q k : Nat} (lo : 2 ^ k ≤ q) (hi : q < 2 ^ (k + 1)) : q.log2 = k :=
  (Nat.log2_eq_iff (by have := Nat.two_pow_pos k; omega)).mpr ⟨lo, hi⟩

/-- **A number that is rounded to 53 binary digits is in its normal form.** -/
theorem roundWithAccuracy_isNormal (s : Sign) {M : Nat} {E : Int} (hM : 2 ^ 52 ≤ M)
    (hE : -1074 ≤ E + (M.log2 - 52 : Nat)) :
    IsNormal s (roundShift M (M.log2 - 52)) (E + (M.log2 - 52 : Nat))
      (roundWithAccuracy .binary64 s M E .exact) := by
  obtain ⟨hlo, hhi⟩ := roundShift_digits hM
  unfold roundWithAccuracy
  rw [shiftToTargetExponent_eq hM hE]
  dsimp only
  rw [(shiftsTo_shiftRight M (M.log2 - 52)).roundedMantissa]
  generalize roundShift M (M.log2 - 52) = q at *
  generalize E + (M.log2 - 52 : Nat) = e at *
  rcases Nat.lt_or_eq_of_le (show q ≤ 2 ^ 53 by omega) with hq | hq
  · -- the rounded number still has 53 digits
    have hlog2 : q.log2 = 52 := log2_of_bounds (by omega) hq
    have hsecond : shiftToTargetExponent .binary64 q e .exact =
        (ExtendedMantissa.ofMantissaAndAccuracy q .exact, e) := by
      rw [shiftToTargetExponent_eq (by omega) (by omega), hlog2]
      exact congrArg _ (Int.add_zero e)
    rw [hsecond]
    dsimp only
    have hne : q ≠ 0 := by omega
    exact (dif_neg hne : dite (q = 0) _ _ = _) ▸ .same (by omega) hq (by omega)
  · -- the rounded number is the first one with 54 digits
    have hsecond : shiftToTargetExponent .binary64 q e .exact =
        (ExtendedMantissa.ofMantissaAndAccuracy q .exact >>> 1, e + 1) := by
      subst hq
      rw [shiftToTargetExponent_eq (by omega) (by rw [Nat.log2_two_pow]; omega), Nat.log2_two_pow]
      rfl
    rw [hsecond]
    dsimp only
    subst hq
    exact .carry rfl (by decide)

/-! ### Packing -/

theorem ofBitVec_unpackSign (s : Sign) (exponent : BitVec 11) (mantissa : BitVec 52) :
    Sign.ofBitVec (unpackSign (packComponents .binary64 s exponent mantissa)) = s := by
  unfold unpackSign packComponents
  rw [BitVec.extractLsb, BitVec.extractLsb'_append_eq_of_le (by decide),
    BitVec.extractLsb'_append_eq_of_le (by decide)]
  cases s <;> rfl

theorem finite_congr {s t : Sign} {m n : Nat} {e f : Int} {hm : 0 < m} {hn : 0 < n}
    (hs : s = t) (hmn : m = n) (hef : e = f) :
    UnpackedFloat.finite s m e hm = .finite t n f hn := by
  subst hs hmn hef
  rfl

/-- Bits whose exponent is neither the largest nor the smallest one are those of a number in
its normal form. -/
theorem exists_unpack (bits : BitVec Format.binary64.numBits) (htop : unpackExponent bits ≠ -1#11)
    (hbottom : unpackExponent bits ≠ 0#11) :
    ∃ pos, UnpackedFloat.unpack .binary64 bits =
      .finite (.ofBitVec (unpackSign bits)) (1#1 ++ unpackMantissa bits).toNat
        ((unpackExponent bits).toNat - 1075) pos :=
  ⟨_, (if_neg htop).trans (if_neg hbottom)⟩

/-- A finite number in its normal form is kept in 64 bits and found again, if its exponent
is not too large. -/
theorem unpack_pack_finite (s : Sign) {m : Nat} {e : Int} (pos : 0 < m) (lo : 2 ^ 52 ≤ m)
    (hi : m < 2 ^ 53) (he : -1074 ≤ e) (hmax : e ≤ 971) :
    (Float.Model.pack (.finite s m e pos)).unpack = .finite s m e pos := by
  have hlog : m.log2 = 52 := log2_of_bounds lo hi
  have hbias : (Format.binary64.exponentBias : Int) = 1023 := rfl
  have hwidth : (Format.binary64.mantissaBitsWithoutImplicit : Int) = 52 := rfl
  obtain ⟨b, hb⟩ : ∃ b : Nat, e = b - 1075 := ⟨(e + 1075).toNat, by omega⟩
  subst hb
  have hexponent : ((b : Int) - 1075 + 1023 + 52).toNat = b := by omega
  have hpack : UnpackedFloat.pack .binary64 (.finite s m (b - 1075) pos) =
      packComponents .binary64 s (BitVec.ofNat 11 b) (BitVec.ofNat 52 m) := by
    unfold UnpackedFloat.pack
    dsimp only
    have hroom : ¬ 2 ^ Format.binary64.exponentBits ≤ b + 1 := by
      show ¬ 2 ^ 11 ≤ b + 1
      omega
    rw [hbias, hwidth, hexponent, hlog, if_neg hroom,
      if_pos (show 52 + 1 = Format.binary64.mantissaBits from rfl)]
  have hvalue : (BitVec.ofNat 11 b).toNat = b := by
    rw [BitVec.toNat_ofNat, Nat.mod_eq_of_lt (by omega)]
  have htop : BitVec.ofNat 11 b ≠ -1#11 := fun h => by
    have hall : b = 2047 := hvalue.symm.trans (congrArg BitVec.toNat h)
    omega
  have hbottom : BitVec.ofNat 11 b ≠ 0#11 := fun h => by
    have hnone : b = 0 := hvalue.symm.trans (congrArg BitVec.toNat h)
    omega
  have hmantissa : (1#1 ++ BitVec.ofNat 52 m).toNat = m := by
    rw [BitVec.toNat_append, ← Nat.shiftLeft_add_eq_or_of_lt (BitVec.isLt _),
      BitVec.toNat_ofNat, Nat.shiftLeft_eq]
    simp only [BitVec.toNat_ofNat]
    omega
  show UnpackedFloat.unpack .binary64
    (UnpackedFloat.pack .binary64 (.finite s m (b - 1075) pos)) = _
  rw [hpack]
  obtain ⟨_, hunpack⟩ :=
    exists_unpack (packComponents .binary64 s (BitVec.ofNat 11 b) (BitVec.ofNat 52 m))
    (by rwa [unpackExponent_packComponents]) (by rwa [unpackExponent_packComponents])
  refine hunpack.trans (finite_congr (ofBitVec_unpackSign ..) ?_ ?_)
  · rw [unpackMantissa_packComponents]
    exact hmantissa
  · rw [unpackExponent_packComponents, hvalue]

/-- A number whose exponent is too large is kept as infinity. -/
theorem unpack_pack_infinity (s : Sign) {m : Nat} {e : Int} (pos : 0 < m) (he : 972 ≤ e) :
    (Float.Model.pack (.finite s m e pos)).unpack = .infinity s := by
  have hpack : UnpackedFloat.pack .binary64 (.finite s m e pos) = packedInfinity .binary64 s := by
    have hbias : (Format.binary64.exponentBias : Int) = 1023 := rfl
    have hwidth : (Format.binary64.mantissaBitsWithoutImplicit : Int) = 52 := rfl
    unfold UnpackedFloat.pack
    dsimp only
    rw [hbias, hwidth, if_pos]
    show 2 ^ 11 ≤ _
    omega
  show UnpackedFloat.unpack .binary64 (UnpackedFloat.pack .binary64 (.finite s m e pos)) = _
  rw [hpack]
  cases s <;> rfl

end Cadence.Decimal
