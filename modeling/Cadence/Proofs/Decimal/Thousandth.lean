/-
Thousandth parts.

The number of seconds in a number of milliseconds is a floating-point number.  It is finite
as long as the milliseconds have at most 53 binary digits, which is shown without working it
out: what matters is how large its exponent can be.

* `ExponentAtMost` — finite numbers with a bound for their exponent;
* `roundWithAccuracy_exponentAtMost`, `div_exponentAtMost` — such bounds for what is rounded
  and what is divided;
* `isInf_unpack_pack` — a number with such an exponent is not kept as infinity;
* **`isInf_nearest_thousandth`** — the thousandth part of a number of milliseconds.
-/
import Cadence.Proofs.Decimal.Whole

namespace Cadence.Decimal

open Float.Model Float.Model.UnpackedFloat

/-- A finite number whose exponent is at most some number. -/
inductive ExponentAtMost (top : Int) : UnpackedFloat → Prop where
  | zero (s : Sign) : ExponentAtMost top (.zero s)
  | finite (s : Sign) {m : Nat} {e : Int} (pos : 0 < m) (he : e ≤ top) :
    ExponentAtMost top (.finite s m e pos)

theorem mantissa_shiftRight_le (em : ExtendedMantissa) (k : Nat) :
    (em >>> k).mantissa ≤ em.mantissa := by
  induction k with
  | zero => exact Nat.le_refl _
  | succ k ih =>
    show (em >>> k).mantissa / 2 ≤ _
    exact Nat.le_trans (Nat.div_le_self _ _) ih

theorem roundedMantissa_le (em : ExtendedMantissa) : em.roundedMantissa ≤ em.mantissa + 1 := by
  obtain ⟨m, round, sticky⟩ := em
  unfold ExtendedMantissa.roundedMantissa
  cases round <;> cases sticky <;>
    simp only [ExtendedMantissa.accuracy, Accuracy.roundToNearestEven] <;> omega

theorem mantissa_ofMantissaAndAccuracy (m : Nat) (accuracy : Accuracy) :
    (ExtendedMantissa.ofMantissaAndAccuracy m accuracy).mantissa = m := by
  unfold ExtendedMantissa.ofMantissaAndAccuracy
  split <;> rfl

/-- A shift makes no number larger, and its exponent grows at most by the number of its digits. -/
theorem shiftToTargetExponent_le {m k : Nat} {e top : Int} (accuracy : Accuracy)
    (hm : m < 2 ^ k) (he : e ≤ top) (htop : -1074 ≤ top) :
    (shiftToTargetExponent .binary64 m e accuracy).1.mantissa ≤ m ∧
      (shiftToTargetExponent .binary64 m e accuracy).2 ≤ top + k := by
  constructor
  · refine Nat.le_trans (mantissa_shiftRight_le _ _) ?_
    rw [mantissa_ofMantissaAndAccuracy]
  · have hlog : m.log2 ≤ k := by
      rcases Nat.eq_zero_or_pos m with rfl | hpos
      · exact Nat.zero_le k
      · exact Nat.le_of_lt ((Nat.log2_lt (Nat.ne_of_gt hpos)).mpr hm)
    have hbits : Format.binary64.mantissaBits = 53 := rfl
    have hmin : Format.binary64.minExponent = -1074 := rfl
    show e + ((Format.binary64.targetExponent (totalExponent m e) - e).toNat : Int) ≤ top + k
    rw [Format.targetExponent, totalExponent, hbits, hmin]
    omega

/-- Rounding a number makes its exponent larger at most by twice the number of its digits. -/
theorem roundWithAccuracy_exponentAtMost (s : Sign) {m k : Nat} {e top : Int} (accuracy : Accuracy)
    (hm : m + 1 < 2 ^ k) (he : e ≤ top) (htop : -1074 ≤ top) :
    ExponentAtMost (top + k + k) (roundWithAccuracy .binary64 s m e accuracy) := by
  obtain ⟨hmantissa, hexponent⟩ := shiftToTargetExponent_le accuracy (Nat.lt_of_succ_lt hm) he htop
  unfold roundWithAccuracy
  generalize shiftToTargetExponent .binary64 m e accuracy = first at *
  obtain ⟨em, e₁⟩ := first
  dsimp only at *
  have hrounded : em.roundedMantissa < 2 ^ k := by
    have := roundedMantissa_le em
    omega
  obtain ⟨-, hlast⟩ := shiftToTargetExponent_le .exact hrounded hexponent (by omega)
  by_cases hzero : (shiftToTargetExponent .binary64 em.roundedMantissa e₁ .exact).1.mantissa = 0
  · rw [dif_pos hzero]
    exact .zero s
  · rw [dif_neg hzero]
    exact .finite s _ hlast

/-- A number whose exponent is not too large is not kept as infinity. -/
theorem isInf_unpack_pack {u : UnpackedFloat} (h : ExponentAtMost 971 u) :
    (Float.Model.pack u).unpack.isInf = false := by
  -- only bits with the largest exponent are infinity
  have hcomponents (s : Sign) (b : BitVec 11) (m : BitVec 52) (hb : b ≠ -1#11) :
      (UnpackedFloat.unpack .binary64 (packComponents .binary64 s b m)).isInf = false := by
    unfold UnpackedFloat.unpack
    dsimp only
    rw [unpackExponent_packComponents, if_neg hb]
    by_cases hzero : b = 0#11
    · rw [if_pos hzero]
      by_cases hmantissa : unpackMantissa (packComponents Format.binary64 s b m) = 0#52
      · rw [dif_pos hmantissa]
        rfl
      · rw [dif_neg hmantissa]
        rfl
    · rw [if_neg hzero]
      rfl
  cases h with
  | zero s => exact hcomponents s 0 0 (by decide)
  | @finite s m e pos he =>
    have hbias : (Format.binary64.exponentBias : Int) = 1023 := rfl
    have hwidth : (Format.binary64.mantissaBitsWithoutImplicit : Int) = 52 := rfl
    have hroom : (e + 1023 + 52).toNat + 1 < 2 ^ 11 := by omega
    have hexponent : BitVec.ofNat 11 (e + 1023 + 52).toNat ≠ -1#11 := fun heq => by
      have hvalue : (e + 1023 + 52).toNat % 2 ^ 11 = 2047 := congrArg BitVec.toNat heq
      omega
    show (UnpackedFloat.unpack .binary64 (UnpackedFloat.pack .binary64 (.finite s m e pos))).isInf =
      false
    unfold UnpackedFloat.pack
    dsimp only
    rw [hbias, hwidth, if_neg (Nat.not_le.mpr hroom)]
    split
    · exact hcomponents s _ _ hexponent
    · exact hcomponents s _ _ (by decide)

/-- The exponent of the quotient of two numbers of 53 digits. -/
theorem div_exponentAtMost (s t : Sign) {m₁ m₂ : Nat} {e₁ e₂ top : Int} (pos₁ : 0 < m₁)
    (pos₂ : 0 < m₂) (hm₁ : m₁.log2 = 52) (hm₂ : m₂.log2 = 52) (he : e₁ - e₂ ≤ top)
    (htop : -1074 ≤ top) :
    ExponentAtMost (top + 107 + 107)
      (UnpackedFloat.div .binary64 (.finite s m₁ e₁ pos₁) (.finite t m₂ e₂ pos₂)) := by
  have hbits : Format.binary64.mantissaBits = 53 := rfl
  -- both numbers have as many digits, so at most 53 more are worked out
  have hshift : (e₁ - e₂ - min (e₁ - e₂)
      (Format.binary64.targetExponent (totalExponent m₁ e₁ - totalExponent m₂ e₂))).toNat ≤ 53 := by
    rw [Format.targetExponent, totalExponent, totalExponent, hm₁, hm₂, hbits]
    omega
  show ExponentAtMost _ (roundWithAccuracy .binary64 _ (m₁ <<< _ / m₂) (min _ _) _)
  generalize (e₁ - e₂ - _).toNat = k at hshift ⊢
  refine roundWithAccuracy_exponentAtMost _ _ ?_ (Int.le_trans (Int.min_le_left _ _) he) htop
  have hdigits : m₁ < 2 ^ 53 := (Nat.log2_lt (Nat.ne_of_gt pos₁)).mp (by omega)
  have hquotient : m₁ <<< k / m₂ < 2 ^ 106 := by
    refine Nat.lt_of_le_of_lt (Nat.div_le_self _ _) ?_
    rw [Nat.shiftLeft_eq]
    calc m₁ * 2 ^ k < 2 ^ 53 * 2 ^ k := Nat.mul_lt_mul_of_pos_right hdigits (Nat.two_pow_pos k)
      _ ≤ 2 ^ 53 * 2 ^ 53 := Nat.mul_le_mul_left _ (Nat.pow_le_pow_right (by decide) hshift)
      _ = 2 ^ 106 := rfl
  exact Nat.lt_of_le_of_lt hquotient (by decide)

/-- The thousandth part of a number of at most 53 binary digits is finite. -/
theorem isInf_thousandth {n : Nat} (hn : n ≠ 0) (hsmall : n < 2 ^ 53) :
    (Float.ofScientific n true 3).isInf = false := by
  have hlog : n.log2 ≤ 52 := Nat.le_of_lt_succ ((Nat.log2_lt hn).mpr hsmall)
  have hdigits : (n * 2 ^ (52 - n.log2)).log2 = 52 := by
    rw [log2_mul_two_pow hn]
    omega
  obtain ⟨pos, hunpack⟩ := unpack_toFloat hn hsmall
  have hthousand : (Float.exactlyRepresentablePowersOfTen[3]).toModel.unpack =
      .finite .positive (1000 * 2 ^ 43) (-43) (by decide) := rfl
  unfold Float.ofScientific
  rw [dif_pos ⟨hsmall, by decide⟩]
  show (Float.Model.pack (UnpackedFloat.div .binary64 (n.toUInt64.toFloat).toModel.unpack
    (Float.exactlyRepresentablePowersOfTen[3]).toModel.unpack)).unpack.isInf = false
  rw [hunpack, hthousand]
  have hexponent : -((52 - n.log2 : Nat) : Int) - -43 ≤ 757 := by omega
  exact isInf_unpack_pack (div_exponentAtMost _ _ pos _ hdigits (by decide) hexponent (by omega))

/-- **The thousandth part of a natural number below `2 ^ 53` is read as a finite number.** -/
theorem isInf_nearest_thousandth {n : Nat} (hsmall : n < 2 ^ 53) :
    (nearest n (-3)).isInf = false := by
  have hlength : (Nat.toDigits 10 n).length ≤ 16 :=
    (Nat.length_toDigits_le_iff (by decide) (by decide)).mpr (Nat.lt_trans hsmall (by decide))
  unfold nearest
  dsimp only
  split
  · decide +kernel
  · next hn =>
    rw [if_neg (show ¬(320 : Int) < -3 + (Nat.toDigits 10 n).length by omega),
      if_neg (show ¬-3 + ((Nat.toDigits 10 n).length : Int) < -400 by omega), if_neg (by decide)]
    exact isInf_thousandth (fun h => hn (beq_iff_eq.mpr h)) hsmall

end Cadence.Decimal
