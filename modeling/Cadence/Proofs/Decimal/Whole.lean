/-
Whole numbers as floating-point numbers.

A whole number is read as the number rounded to 53 binary digits, as long as it lies in the range of
floating-point numbers.  Two of them are ordered as the rounded numbers are.

* `rounded` — an integer rounded to 53 binary digits; up to `2 ^ 53` it stays what it is;
* `floatBound` — the least number beyond the range;
* `nearestInt_isInt`, `nearestInt_isInf_iff` — what an integer is read as;
* `compare_nearestInt` — the order of two integers that are read;
* `Numeral.float?_eq`, `float?_text` — the decimal text of an integer is read as the integer is.
-/
import Cadence.Proofs.Decimal.Numeral
import Cadence.Proofs.Decimal.Rounding
import Cadence.Template

namespace Cadence

namespace Decimal

open Float.Model Float.Model.UnpackedFloat

/-! ### Whole numbers as floating-point numbers -/

/-- How many binary digits a number has beyond 53. -/
def excess (n : Nat) : Nat := n.log2 - 52

/-- A natural number rounded to 53 binary digits. -/
def roundedNat (n : Nat) : Nat := roundShift n (excess n) * 2 ^ excess n

/-- An integer rounded to 53 binary digits. -/
def rounded (n : Int) : Int := if n < 0 then -(roundedNat n.natAbs) else roundedNat n.natAbs

/-- Numbers with more binary digits than these are beyond the range of floating-point
numbers. The number is not unfolded, so that no proof works out a power of this size. -/
@[irreducible] def maxDigits : Nat := 1024

/-- The least natural number that is no floating-point number when it is rounded: half a
step below `2 ^ 1024`. -/
def floatBound : Nat := 2 ^ maxDigits - 2 ^ (maxDigits - 54)

theorem log2_mul_two_pow {n : Nat} (hn : n ≠ 0) (j : Nat) : (n * 2 ^ j).log2 = n.log2 + j := by
  refine log2_of_bounds ?_ ?_
  · rw [Nat.pow_add]
    exact Nat.mul_le_mul_right _ (Nat.log2_self_le hn)
  · rw [Nat.add_right_comm, Nat.pow_add]
    exact Nat.mul_lt_mul_of_pos_right Nat.lt_log2_self (Nat.two_pow_pos j)

/-- A natural number written with more binary digits behind the point is rounded as it is. -/
theorem roundShift_scaled {n j : Nat} (hj : 52 ≤ j) :
    roundShift (n * 2 ^ j) (n.log2 + j - 52) * 2 ^ n.log2 = roundedNat n * 2 ^ 52 := by
  unfold roundedNat excess
  rcases Nat.le_total 52 n.log2 with h | h
  · obtain ⟨k, hk⟩ := Nat.exists_eq_add_of_le h
    rw [hk, show 52 + k + j - 52 = k + j by omega, roundShift_mul,
      show 52 + k - 52 = k by omega, Nat.pow_add]
    rw [Nat.mul_comm (2 ^ 52), Nat.mul_assoc]
  · obtain ⟨k, hk⟩ := Nat.exists_eq_add_of_le h
    have hshift : n.log2 + j - 52 = j - k := by omega
    have hscale : n * 2 ^ j = n * 2 ^ (j - k + k) := by rw [show j - k + k = j by omega]
    rw [hshift, hscale, roundShift_mul_add, show n.log2 - 52 = 0 by omega, roundShift_zero]
    rw [Nat.mul_assoc, ← Nat.pow_add, show k + n.log2 = 52 by omega, Nat.pow_zero, Nat.mul_one]

/-! ### What rounding changes -/

theorem excess_le (n : Nat) : excess n ≤ n.log2 := Nat.sub_le _ _

/-- Rounding leaves a number between the same powers of two. -/
theorem roundedNat_bounds {n : Nat} (hn : n ≠ 0) :
    2 ^ n.log2 ≤ roundedNat n ∧ roundedNat n ≤ 2 ^ (n.log2 + 1) := by
  have hle := excess_le n
  have hpower {t : Nat} (ht : excess n ≤ t) :
      roundShift (2 ^ t) (excess n) * 2 ^ excess n = 2 ^ t := by
    obtain ⟨j, rfl⟩ := Nat.exists_eq_add_of_le ht
    rw [roundShift_two_pow, Nat.mul_comm, ← Nat.pow_add]
  constructor
  · calc 2 ^ n.log2 = roundShift (2 ^ n.log2) (excess n) * 2 ^ excess n := (hpower hle).symm
      _ ≤ roundedNat n := Nat.mul_le_mul_right _ (roundShift_mono _ (Nat.log2_self_le hn))
  · calc roundedNat n ≤ roundShift (2 ^ (n.log2 + 1)) (excess n) * 2 ^ excess n :=
          Nat.mul_le_mul_right _ (roundShift_mono _ (Nat.le_of_lt Nat.lt_log2_self))
      _ = 2 ^ (n.log2 + 1) := hpower (by omega)

/-- Of two numbers with as many digits the same places are rounded away; otherwise a power
of two is between. -/
theorem roundedNat_mono {n m : Nat} (h : n ≤ m) : roundedNat n ≤ roundedNat m := by
  rcases Nat.eq_zero_or_pos n with rfl | hn
  · exact Nat.zero_le _
  have hn : n ≠ 0 := Nat.ne_of_gt hn
  have hm : m ≠ 0 := by omega
  have hlog : n.log2 ≤ m.log2 := (Nat.le_log2 hm).mpr (Nat.le_trans (Nat.log2_self_le hn) h)
  rcases Nat.lt_or_eq_of_le hlog with hlt | heq
  · calc roundedNat n ≤ 2 ^ (n.log2 + 1) := (roundedNat_bounds hn).2
      _ ≤ 2 ^ m.log2 := Nat.pow_le_pow_right (by decide) hlt
      _ ≤ roundedNat m := (roundedNat_bounds hm).1
  · unfold roundedNat excess
    rw [heq]
    exact Nat.mul_le_mul_right _ (roundShift_mono _ h)

/-- A number with at most 53 digits stays what it is, and so does the next one. -/
theorem roundedNat_of_le {n : Nat} (h : n ≤ 2 ^ 53) : roundedNat n = n := by
  rcases Nat.lt_or_eq_of_le h with hlt | rfl
  · have hlog : n.log2 ≤ 52 := by
      rcases Nat.eq_zero_or_pos n with rfl | hn
      · exact Nat.zero_le _
      · exact Nat.le_of_lt_succ ((Nat.log2_lt (Nat.ne_of_gt hn)).mpr hlt)
    unfold roundedNat excess
    rw [Nat.sub_eq_zero_of_le hlog, roundShift_zero, Nat.pow_zero, Nat.mul_one]
  · unfold roundedNat excess
    rw [Nat.log2_two_pow]
    rfl

theorem rounded_mono {a b : Int} (h : a ≤ b) : rounded a ≤ rounded b := by
  unfold rounded
  split_ifs with ha hb
  · have := roundedNat_mono (show b.natAbs ≤ a.natAbs by omega)
    omega
  · omega
  · omega
  · have := roundedNat_mono (show a.natAbs ≤ b.natAbs by omega)
    omega

/-- **Integers of at most 53 binary digits are not changed.** -/
theorem rounded_of_le {n : Int} (h : n.natAbs ≤ 2 ^ 53) : rounded n = n := by
  unfold rounded
  rw [roundedNat_of_le h]
  split_ifs <;> omega

/-! ### Integers in their normal form -/

/-- A floating-point number in its normal form that is a given integer. -/
inductive IsInt : UnpackedFloat → Int → Prop where
  | zero (s : Sign) : IsInt (.zero s) 0
  | finite {s : Sign} {m : Nat} {e : Int} {n : Nat} (pos : 0 < m) (lo : 2 ^ 52 ≤ m)
      (hi : m < 2 ^ 53) (he : -52 ≤ e)
      (hmax : e ≤ 971) (value : m * 2 ^ (e + 52).toNat = n * 2 ^ 52) :
        IsInt (.finite s m e pos) (s.apply n)

namespace IsInt

variable {u v : UnpackedFloat} {a b : Int}

theorem unpack_pack (h : IsInt u a) : (Float.Model.pack u).unpack = u := by
  cases h with
  | zero s => cases s <;> rfl
  | finite pos lo hi he hmax value => exact unpack_pack_finite _ pos lo hi (by omega) hmax

theorem neg (h : IsInt u a) : IsInt u.neg (-a) := by
  cases h with
  | zero s => exact .zero _
  | @finite s m e n pos lo hi he hmax value =>
    have hsign : -s.apply n = (-s).apply n := by
      cases s with
      | negative => exact Int.neg_neg _
      | positive => rfl
    exact hsign ▸ .finite pos lo hi he hmax value

end IsInt

theorem IsNormal.isInt {s : Sign} {q v L : Nat} {u : UnpackedFloat}
    (h : IsNormal s q (L - 52) u) (hvalue : q * 2 ^ L = v * 2 ^ 52) (hmax : L ≤ 1023)
    (htop : L = 1023 → q < 2 ^ 53) : IsInt u (s.apply v) := by
  cases h with
  | same lo hi pos =>
    refine .finite pos lo hi (by omega) (by omega) ?_
    rwa [show ((L : Int) - 52 + 52).toNat = L by omega]
  | carry top pos =>
    refine .finite pos (Nat.le_refl _) (by decide) (by omega) (by omega) ?_
    rw [show ((L : Int) - 52 + 1 + 52).toNat = L + 1 by omega, ← hvalue, top, ← Nat.pow_add,
      ← Nat.pow_add]
    congr 1
    omega

theorem maxDigits_eq : maxDigits = 1024 := by rw [maxDigits]

theorem floatBound_le_iff {n : Nat} : floatBound ≤ n ↔ 2 ^ maxDigits ≤ n + 2 ^ (maxDigits - 54) :=
  Nat.sub_le_iff_le_add

theorem log2_of_lt_floatBound {n : Nat} (h : n < floatBound) : n.log2 ≤ 1023 := by
  have hmax := maxDigits_eq
  rcases Nat.eq_zero_or_pos n with rfl | hpos
  · exact Nat.zero_le _
  · have hlt : n < 2 ^ maxDigits := Nat.lt_of_lt_of_le h (Nat.sub_le _ _)
    have hlog := (Nat.log2_lt (Nat.ne_of_gt hpos)).mpr hlt
    omega

/-- A number to which less than its half is missing is at least that half. -/
theorem two_pow_le_of_succ_le {n k p : Nat} (hkp : k ≤ p)
    (h : 2 ^ (p + 1) ≤ n + 2 ^ k) : 2 ^ p ≤ n := by
  have hk : 2 ^ k ≤ 2 ^ p := Nat.pow_le_pow_right (by decide) hkp
  rw [Nat.pow_succ] at h
  omega

theorem log2_of_floatBound_le {n : Nat} (h : floatBound ≤ n) : 1023 ≤ n.log2 := by
  have hmax := maxDigits_eq
  have hsum := floatBound_le_iff.mp h
  have hle : 2 ^ (maxDigits - 1) ≤ n := by
    refine two_pow_le_of_succ_le (k := maxDigits - 54) (by omega) ?_
    rwa [show maxDigits - 1 + 1 = maxDigits by omega]
  have hpos : 0 < n := Nat.lt_of_lt_of_le (Nat.two_pow_pos _) hle
  have hlog := (Nat.le_log2 (Nat.ne_of_gt hpos)).mpr hle
  omega

/-- Numbers with less binary digits are in range. -/
theorem two_pow_le_floatBound {k : Nat} (hk : k < maxDigits) : 2 ^ k ≤ floatBound := by
  have hmax := maxDigits_eq
  have hhalf : 2 ^ (maxDigits - 1) + 2 ^ (maxDigits - 1) = 2 ^ maxDigits := by
    rw [← Nat.two_mul, ← Nat.pow_succ']
    congr 1
    omega
  have hk : 2 ^ k ≤ 2 ^ (maxDigits - 1) := Nat.pow_le_pow_right (by decide) (by omega)
  have hstep : 2 ^ (maxDigits - 54) ≤ 2 ^ (maxDigits - 1) :=
    Nat.pow_le_pow_right (by decide) (by omega)
  unfold floatBound
  omega

/-- **What a natural number is as a floating-point number**: the number rounded to 53
digits, or infinity beyond the range. -/
theorem unpack_pack_isNormal {n j : Nat} (hj : 52 ≤ j) {u : UnpackedFloat}
    (hu : IsNormal .positive (roundShift (n * 2 ^ j) (n.log2 + j - 52)) (n.log2 - 52) u) :
    (n < floatBound → IsInt (Float.Model.pack u).unpack (roundedNat n)) ∧
      (floatBound ≤ n → (Float.Model.pack u).unpack = .infinity .positive) := by
  have hmax := maxDigits_eq
  -- of the numbers with 1024 digits, those in the second half of the last step are rounded
  -- to one with more
  have htop : n.log2 = 1023 →
      (2 ^ (52 + 1) ≤ roundShift (n * 2 ^ j) (n.log2 + j - 52) ↔ floatBound ≤ n) := by
    intro hlog
    have hshift : n.log2 + j - 52 = maxDigits - 54 + 1 + j := by omega
    rw [hshift, roundShift_mul, floatBound_le_iff]
    exact two_pow_le_roundShift (by omega)
  constructor
  · intro h
    have hint : IsInt u (roundedNat n) := by
      refine hu.isInt (roundShift_scaled hj) (log2_of_lt_floatBound h) fun hlog => ?_
      exact Nat.lt_of_not_le fun hle => Nat.not_le_of_lt h ((htop hlog).mp hle)
    rwa [hint.unpack_pack]
  · intro h
    have hlog := log2_of_floatBound_le h
    cases hu with
    | same lo hi pos =>
      have hne : n.log2 ≠ 1023 := fun heq => Nat.not_le_of_lt hi ((htop heq).mpr h)
      exact unpack_pack_infinity _ pos (by omega)
    | carry top pos => exact unpack_pack_infinity _ pos (by omega)

/-! ### From decimal notation -/

/-- A natural number in the binary notation with which it is rounded. -/
def Carries (n : Nat) (x : Float) : Prop :=
  ∃ j u, 52 ≤ j ∧ IsNormal .positive (roundShift (n * 2 ^ j) (n.log2 + j - 52)) (n.log2 - 52) u ∧
    x.toModel = Float.Model.pack u

theorem isNormal_of_scaled {n j : Nat} (hn : n ≠ 0) (hj : 52 ≤ j) :
    IsNormal .positive (roundShift (n * 2 ^ j) (n.log2 + j - 52)) (n.log2 - 52)
      (roundWithAccuracy .binary64 .positive (n * 2 ^ j) (-j) .exact) := by
  have hlog := log2_mul_two_pow hn j
  have hM : 2 ^ 52 ≤ n * 2 ^ j :=
    (Nat.le_log2 (Nat.mul_ne_zero hn (Nat.ne_of_gt (Nat.two_pow_pos j)))).mp (by omega)
  have hnormal := roundWithAccuracy_isNormal .positive (E := -j) hM (by omega)
  rw [hlog] at hnormal
  rwa [show (-(j : Int) + ((n.log2 + j - 52 : Nat) : Int)) = n.log2 - 52 by omega] at hnormal

theorem carries_ofScientific_large {n : Nat} (hn : n ≠ 0) :
    Carries n ⟨Float.Model.ofScientific n 0⟩ := by
  refine ⟨53, _, by decide, isNormal_of_scaled hn (by decide), ?_⟩
  have hlow : ¬ (0 : Int) < -(2 ^ Format.binary64.exponentBits + (n.log2 : Int)) := by
    show ¬ (0 : Int) < -(2048 + (n.log2 : Int))
    omega
  show Float.Model.pack (UnpackedFloat.ofScientific .binary64 n 0) = _
  unfold UnpackedFloat.ofScientific
  rw [dif_neg hn, if_neg (by decide), if_neg hlow, if_pos (Int.le_refl 0)]
  show Float.Model.pack (roundWithAccuracy .binary64 .positive (n <<< 53 * 1) (-53) .exact) = _
  rw [Nat.shiftLeft_eq, Nat.mul_one]
  rfl

/-- A number of 64 bits with at most 53 digits has its digits moved up to the highest place
before it is rounded. -/
theorem ofUInt64_eq {n : Nat} (hn : n ≠ 0) (hsmall : n < 2 ^ 53) :
    UnpackedFloat.ofUInt64 .binary64 n.toUInt64 =
      roundWithAccuracy .binary64 .positive (n * 2 ^ (52 - n.log2))
        (-((52 - n.log2 : Nat) : Int)) .exact := by
  have hlog : n.log2 ≤ 52 := Nat.le_of_lt_succ ((Nat.log2_lt hn).mpr hsmall)
  have hvalue : n.toUInt64.toNat = n := by
    rw [UInt64.toNat_ofNat', Nat.mod_eq_of_lt (by omega)]
  have hsign : compare (n : Int) 0 = .gt := Int.compare_eq_gt.mpr (by omega)
  have htarget : Format.binary64.targetExponent (totalExponent n 0) =
      -((52 - n.log2 : Nat) : Int) := by
    have hbits : Format.binary64.mantissaBits = 53 := rfl
    have hmin : Format.binary64.minExponent = -1074 := rfl
    rw [Format.targetExponent, totalExponent, hbits, hmin]
    omega
  show UnpackedFloat.normalize .binary64 (n.toUInt64.toNat : Int) 0 .positive = _
  rw [hvalue]
  unfold UnpackedFloat.normalize
  rw [hsign]
  show UnpackedFloat.round .binary64 .positive n 0 = _
  unfold UnpackedFloat.round decreaseExponent
  rw [htarget]
  dsimp only
  rw [show (0 - -((52 - n.log2 : Nat) : Int)).toNat = 52 - n.log2 by omega,
    Nat.shiftLeft_eq, Int.zero_sub]

/-- Such a number is taken over as it is: nothing of it is rounded away. -/
theorem unpack_toFloat {n : Nat} (hn : n ≠ 0) (hsmall : n < 2 ^ 53) :
    ∃ pos, (n.toUInt64.toFloat).toModel.unpack =
      .finite .positive (n * 2 ^ (52 - n.log2)) (-((52 - n.log2 : Nat) : Int)) pos := by
  have hlog : n.log2 ≤ 52 := Nat.le_of_lt_succ ((Nat.log2_lt hn).mpr hsmall)
  have hM : (n * 2 ^ (52 - n.log2)).log2 = 52 := by
    rw [log2_mul_two_pow hn]
    omega
  have hne : n * 2 ^ (52 - n.log2) ≠ 0 := Nat.mul_ne_zero hn (Nat.ne_of_gt (Nat.two_pow_pos _))
  have hlo : 2 ^ 52 ≤ n * 2 ^ (52 - n.log2) := (Nat.le_log2 hne).mp (Nat.le_of_eq hM.symm)
  have hhi : n * 2 ^ (52 - n.log2) < 2 ^ 53 := (Nat.log2_lt hne).mp (by omega)
  have hnormal := roundWithAccuracy_isNormal .positive (E := -((52 - n.log2 : Nat) : Int))
    hlo (by omega)
  rw [hM, Nat.sub_self, roundShift_zero, ← ofUInt64_eq hn hsmall, Int.natCast_zero, Int.add_zero]
    at hnormal
  refine ⟨Nat.pos_of_ne_zero hne, ?_⟩
  show (Float.Model.pack (UnpackedFloat.ofUInt64 .binary64 n.toUInt64)).unpack = _
  generalize UnpackedFloat.ofUInt64 .binary64 n.toUInt64 = u at hnormal
  cases hnormal with
  | same lo hi pos => exact unpack_pack_finite _ pos lo hi (by omega) (by omega)
  | carry top pos => omega

theorem carries_ofScientific_small {n : Nat} (hn : n ≠ 0) (hsmall : n < 2 ^ 53) :
    Carries n (n.toUInt64.toFloat * Float.exactlyRepresentablePowersOfTen[0]) := by
  have hlog : n.log2 ≤ 52 := Nat.le_of_lt_succ ((Nat.log2_lt hn).mpr hsmall)
  obtain ⟨pos, hunpack⟩ := unpack_toFloat hn hsmall
  have hone : (Float.exactlyRepresentablePowersOfTen[0]).toModel.unpack =
      .finite .positive (2 ^ 52) (-52) (by decide) := rfl
  refine ⟨104 - n.log2, _, by omega, isNormal_of_scaled hn (by omega), ?_⟩
  show Float.Model.pack (UnpackedFloat.mul .binary64 _ _) = _
  rw [hunpack, hone]
  show Float.Model.pack
    (roundWithAccuracy .binary64 .positive (n * 2 ^ (52 - n.log2) * 2 ^ 52) _ .exact) = _
  rw [Nat.mul_assoc, ← Nat.pow_add, show 52 - n.log2 + 52 = 104 - n.log2 by omega]
  rw [show -((52 - n.log2 : Nat) : Int) + -52 = -((104 - n.log2 : Nat) : Int) by omega]

theorem carries_ofScientific {n : Nat} (hn : n ≠ 0) : Carries n (Float.ofScientific n false 0) := by
  unfold Float.ofScientific
  split
  · next h => exact carries_ofScientific_small hn h.1
  · exact carries_ofScientific_large hn

/-- A number in range has at most 320 decimal digits: 16 binary digits take less than 5
decimal ones. -/
theorem length_toDigits_of_lt_floatBound {n : Nat} (h : n < floatBound) :
    (Nat.toDigits 10 n).length ≤ 5 * 64 := by
  have hmax : maxDigits = 16 * 64 := maxDigits_eq
  have hpow (k : Nat) : (2 ^ 16) ^ k ≤ 10 ^ (5 * k) := by
    rw [Nat.pow_mul 10]
    exact Nat.pow_le_pow_left (by decide) k
  refine (Nat.length_toDigits_le_iff (by decide) (by decide)).mpr ?_
  calc n < floatBound := h
    _ ≤ 2 ^ maxDigits := Nat.sub_le _ _
    _ = (2 ^ 16) ^ 64 := by rw [hmax, Nat.pow_mul]
    _ ≤ 10 ^ (5 * 64) := hpow 64

/-- **A natural number is read as the number rounded to 53 digits, or as infinity beyond the
range.** -/
theorem nearest_natural (n : Nat) :
    (n < floatBound → IsInt (nearest n 0).toModel.unpack (roundedNat n)) ∧
      (floatBound ≤ n → (nearest n 0).toModel.unpack = .infinity .positive) := by
  unfold nearest
  dsimp only
  by_cases hzero : n = 0
  · subst hzero
    refine ⟨fun _ => .zero .positive, fun h => ?_⟩
    exact absurd (log2_of_floatBound_le h) (by decide)
  · rw [if_neg (by simpa using hzero)]
    by_cases hlong : (320 : Int) < 0 + ((Nat.toDigits 10 n).length : Int)
    · rw [if_pos hlong]
      refine ⟨fun h => ?_, fun _ => rfl⟩
      have := length_toDigits_of_lt_floatBound h
      omega
    · rw [if_neg hlong, if_neg (by omega), if_pos (Int.le_refl 0)]
      rw [show n * Nat.pow 10 (0 : Int).toNat = n from Nat.mul_one n]
      obtain ⟨j, u, hj, hnormal, hmodel⟩ := carries_ofScientific hzero
      rw [hmodel]
      exact unpack_pack_isNormal hj hnormal

theorem toModel_neg (x : Float) :
    (-x).toModel.unpack = (Float.Model.pack x.toModel.unpack.neg).unpack :=
  rfl

/-- **An integer is read as the integer rounded to 53 digits.** -/
theorem nearestInt_isInt {n : Int} (h : n.natAbs < floatBound) :
    IsInt (nearestInt n).toModel.unpack (rounded n) := by
  have hnat := (nearest_natural n.natAbs).1 h
  unfold nearestInt rounded
  by_cases hneg : n < 0
  · simp only [if_pos hneg]
    rw [toModel_neg, hnat.neg.unpack_pack]
    exact hnat.neg
  · simp only [if_neg hneg]
    exact hnat

/-- Beyond the range it is read as infinity. -/
theorem nearestInt_isInf {n : Int} (h : floatBound ≤ n.natAbs) : (nearestInt n).isInf = true := by
  have hnat := (nearest_natural n.natAbs).2 h
  unfold nearestInt
  by_cases hneg : n < 0
  · simp only [if_pos hneg]
    show (-nearest n.natAbs 0).toModel.unpack.isInf = true
    rw [toModel_neg, hnat]
    rfl
  · simp only [if_neg hneg]
    show (nearest n.natAbs 0).toModel.unpack.isInf = true
    rw [hnat]
    rfl

theorem IsInt.isFinite {u : UnpackedFloat} {a : Int} (h : IsInt u a) :
    u.isInf = false ∧ u.isNaN = false := by
  cases h <;> exact ⟨rfl, rfl⟩

theorem nearestInt_isInf_iff {n : Int} : (nearestInt n).isInf = true ↔ floatBound ≤ n.natAbs := by
  refine ⟨fun h => Nat.le_of_not_lt fun hlt => ?_, nearestInt_isInf⟩
  exact Bool.false_ne_true ((nearestInt_isInt hlt).isFinite.1.symm.trans h)

theorem nearestInt_isNaN {n : Int} (h : n.natAbs < floatBound) : (nearestInt n).isNaN = false :=
  (nearestInt_isInt h).isFinite.2

/-! ### Comparing integers -/

theorem compare_mul_two_pow {m n : Nat} (hm : 2 ^ 52 ≤ m ∧ m < 2 ^ 53)
    (hn : 2 ^ 52 ≤ n ∧ n < 2 ^ 53) (k l : Nat) :
    compare (m * 2 ^ k) (n * 2 ^ l) = (compare k l).then (compare m n) := by
  -- of two numbers with as many digits the one with the larger exponent is larger
  have hless {m n k l : Nat} (hm : m < 2 ^ 53) (hn : 2 ^ 52 ≤ n) (hkl : k < l) :
      m * 2 ^ k < n * 2 ^ l :=
    calc m * 2 ^ k < 2 ^ 53 * 2 ^ k := Nat.mul_lt_mul_of_pos_right hm (Nat.two_pow_pos k)
      _ = 2 ^ 52 * 2 ^ (k + 1) := by rw [← Nat.pow_add, ← Nat.pow_add]; congr 1; omega
      _ ≤ 2 ^ 52 * 2 ^ l := Nat.mul_le_mul_left _ (Nat.pow_le_pow_right (by decide) hkl)
      _ ≤ n * 2 ^ l := Nat.mul_le_mul_right _ hn
  rcases Nat.lt_trichotomy k l with h | rfl | h
  · rw [Nat.compare_eq_lt.mpr h, Nat.compare_eq_lt.mpr (hless hm.2 hn.1 h)]
    rfl
  · have hpos : 0 < 2 ^ k := Nat.two_pow_pos k
    rw [Nat.compare_eq_eq.mpr (rfl : k = k)]
    simp only [Nat.compare_eq_ite_lt, Nat.mul_lt_mul_right hpos]
    rfl
  · rw [Nat.compare_eq_gt.mpr h, Nat.compare_eq_gt.mpr (hless hn.2 hm.1 h)]
    rfl

/-- The order of natural numbers is that of their exponents and, with equal exponents, that
of their digits. -/
theorem compare_of_value {m n a b : Nat} {e f : Int} (hm : 2 ^ 52 ≤ m ∧ m < 2 ^ 53)
    (hn : 2 ^ 52 ≤ n ∧ n < 2 ^ 53) (he : -52 ≤ e) (hf : -52 ≤ f)
    (hva : m * 2 ^ (e + 52).toNat = a * 2 ^ 52) (hvb : n * 2 ^ (f + 52).toNat = b * 2 ^ 52) :
    (compare e f).then (compare m n) = compare a b := by
  have hexponents : compare e f = compare (e + 52).toNat (f + 52).toNat := by
    rw [Int.compare_eq_ite_lt, Nat.compare_eq_ite_lt]
    split_ifs <;> first | rfl | omega
  have hscale : compare (a * 2 ^ 52) (b * 2 ^ 52) = compare a b := by
    simp only [Nat.compare_eq_ite_lt, Nat.mul_lt_mul_right (Nat.two_pow_pos 52)]
  rw [hexponents, ← compare_mul_two_pow hm hn, hva, hvb, hscale]

theorem pos_of_value {m a k : Nat} (pos : 0 < m) (value : m * 2 ^ k = a * 2 ^ 52) : 0 < a := by
  have hpos : 0 < a * 2 ^ 52 := value ▸ Nat.mul_pos pos (Nat.two_pow_pos k)
  exact Nat.pos_of_mul_pos_right hpos

/-- **Two integers are ordered as floating-point numbers as they are themselves.** -/
theorem IsInt.compare_eq {u v : UnpackedFloat} {a b : Int} (hu : IsInt u a) (hv : IsInt v b) :
    u.compare v = some (compare a b) := by
  cases hu with
  | zero s =>
    cases hv with
    | zero t => rfl
    | @finite t n f b pos lo hi he hmax value =>
      have hb := pos_of_value pos value
      cases t with
      | negative => exact congrArg some (Int.compare_eq_gt.mpr (show -(b : Int) < 0 by omega)).symm
      | positive => exact congrArg some (Int.compare_eq_lt.mpr (show 0 < (b : Int) by omega)).symm
  | @finite s m e a pos lo hi he hmax value =>
    have ha := pos_of_value pos value
    cases hv with
    | zero t =>
      cases s with
      | negative => exact congrArg some (Int.compare_eq_lt.mpr (show -(a : Int) < 0 by omega)).symm
      | positive => exact congrArg some (Int.compare_eq_gt.mpr (show 0 < (a : Int) by omega)).symm
    | @finite t n f b pos' lo' hi' hf hmax' value' =>
      have hb := pos_of_value pos' value'
      have horder := compare_of_value ⟨lo, hi⟩ ⟨lo', hi'⟩ he hf value value'
      cases s with
      | negative =>
        cases t with
        | negative =>
          show some ((compare e f).then (compare m n)).swap =
            some (compare (-(a : Int)) (-(b : Int)))
          rw [horder, Nat.compare_swap, Nat.compare_eq_ite_lt, Int.compare_eq_ite_lt]
          congr 1
          split_ifs <;> first | rfl | omega
        | positive =>
          exact congrArg some (Int.compare_eq_lt.mpr (show -(a : Int) < b by omega)).symm
      | positive =>
        cases t with
        | negative =>
          exact congrArg some (Int.compare_eq_gt.mpr (show -(b : Int) < a by omega)).symm
        | positive =>
          show some ((compare e f).then (compare m n)) = some (compare (a : Int) (b : Int))
          rw [horder, Nat.compare_eq_ite_lt, Int.compare_eq_ite_lt]
          congr 1
          split_ifs <;> first | rfl | omega

/-- **Two integers that are read are ordered as the rounded integers.** -/
theorem compare_nearestInt {a b : Int} (ha : a.natAbs < floatBound) (hb : b.natAbs < floatBound) :
    (nearestInt a).toModel.compare (nearestInt b).toModel =
      some (compare (rounded a) (rounded b)) :=
  (nearestInt_isInt ha).compare_eq (nearestInt_isInt hb)

/-! ### From text -/

end Decimal

namespace Text

/-- A digit of the first script has its distance from `0` as its value. -/
theorem digitValue?_of_isDigit {c : Char} (h : c.isDigit = true) :
    digitValue? c = some (c.toNat - '0'.toNat) := by
  have hall : ∀ n < 58, (Char.ofNat n).isDigit = true →
      digitValue? (Char.ofNat n) = some (n - '0'.toNat) := by
    decide +kernel
  have hcode : c.toNat < 58 := by
    have : c.val ≥ 48 ∧ c.val ≤ 57 := by simpa [Char.isDigit] using h
    exact Nat.lt_succ_of_le this.2
  have hvalue := hall c.toNat hcode
  rw [Char.ofNat_toNat] at hvalue
  exact hvalue h

theorem isDecimalDigit_of_isDigit {c : Char} (h : c.isDigit = true) : isDecimalDigit c = true := by
  rw [isDecimalDigit, digitValue?_of_isDigit h]
  rfl

/-- The capital letters of the first script are no digits of any. -/
theorem toLower_of_isDecimalDigit {c : Char} (h : isDecimalDigit c = true) : c.toLower = c := by
  have hcapital : ∀ z ∈ digitZeros, z + 9 < 65 ∨ 90 < z := by decide
  obtain ⟨z, hz, hle, hge⟩ := isDecimalDigit_iff.mp h
  have hbeside := hcapital z hz
  unfold Char.toLower
  rw [dif_neg]
  rintro ⟨h1, h2⟩
  have h1 : 65 ≤ c.toNat := h1
  have h2 : c.toNat ≤ 90 := h2
  omega

end Text

namespace Numeral

open Decimal Text

/-- A numeral is the number that it writes; no word for a number that is not finite begins
with a digit. -/
theorem unsigned?_eq (n : Numeral) : unsigned? n.chars = some (nearest n.value 0) := by
  have hlength := n.length_values
  have hlower : n.chars.map Char.toLower = n.chars :=
    (List.map_congr_left fun c hc => toLower_of_isDecimalDigit (n.digits c hc)).trans
      (List.map_id' n.chars)
  have hword {c : Char} {cs : List Char} (hc : isDecimalDigit c = false) : n.chars ≠ c :: cs := by
    intro h
    have hdigit := n.digits c (h ▸ List.mem_cons_self)
    rw [hc] at hdigit
    cases hdigit
  unfold unsigned?
  rw [hlower, takeDigits_of_forall n.digits]
  split
  · next h => exact absurd h (hword (by decide))
  · next h => exact absurd h (hword (by decide))
  · next h => exact absurd h (hword (by decide))
  · simp only [value]
    cases hvalues : n.chars.filterMap digitValue? with
    | nil =>
      rw [hvalues] at hlength
      exact absurd (List.length_eq_zero_iff.mp hlength.symm) n.chars_ne
    | cons d ds => rfl

theorem isBlank {n : Numeral} {c : Char} (h : c ∈ n.chars) : isBlank c = false :=
  isBlank_of_isDigitSign (n.isDigitSign h)

/-- **A numeral is read as the floating-point number nearest to it**, with a minus sign or
without. -/
theorem float?_eq (n : Numeral) : float? (String.ofList n.chars) = some (nearest n.value 0) ∧
    float? (String.ofList ('-' :: n.chars)) = some (-nearest n.value 0) := by
  constructor
  · unfold float?
    rw [String.toList_ofList, takeSign_of_digitSigns fun c hc => n.isDigitSign hc]
    dsimp only
    rw [n.unsigned?_eq]
    rfl
  · have hblank : ∀ c ∈ '-' :: n.chars, Text.isBlank c = false :=
      List.forall_mem_cons.mpr ⟨by decide, fun c hc => isBlank hc⟩
    unfold float?
    rw [String.toList_ofList, stripWhile_of_forall hblank]
    show (unsigned? n.chars).map _ = _
    rw [n.unsigned?_eq]
    rfl

/-- The decimal notation of a natural number. -/
def ofNat (n : Nat) : Numeral where
  chars := natDigits n
  chars_ne := Nat.toDigits_ne_nil
  digits := fun c hc =>
    isDecimalDigit_of_isDigit (Nat.isDigit_of_mem_toDigits (by decide) (by decide) hc)

theorem value_ofNat (n : Nat) : (ofNat n).value = n := by
  have hread {cs : List Char} (h : ∀ c ∈ cs, c.isDigit = true) (start : Nat) :
      (cs.filterMap digitValue?).foldl (fun n d => 10 * n + d) start =
        Nat.ofDigitChars 10 cs start := by
    induction cs generalizing start with
    | nil => rfl
    | cons c cs ih =>
      obtain ⟨hc, hcs⟩ := List.forall_mem_cons.mp h
      rw [List.filterMap_cons_some (digitValue?_of_isDigit hc), List.foldl_cons, ih hcs]
      rfl
  exact (hread (fun c hc => Nat.isDigit_of_mem_toDigits (by decide) (by decide) hc) 0).trans
    Nat.ofDigitChars_ten_toDigits

end Numeral

/-- **The decimal text of an integer is read as the integer is.** -/
theorem Decimal.float?_text (n : Int) : float? (Json.int n).text = some (nearestInt n) := by
  have hread := (Numeral.ofNat n.natAbs).float?_eq
  rw [Numeral.value_ofNat] at hread
  show float? (String.ofList (Json.intChars n)) = _
  unfold Json.intChars nearestInt
  split_ifs
  · exact hread.2
  · exact hread.1

end Cadence
