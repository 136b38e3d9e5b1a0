/-
Numerals: rows of decimal digits, of any script.

* `Numeral` — a row of digits, and its value;
* `Numeral.integer?_eq` — a numeral is read as its value, if it does not have too many digits;
* `exists_numeral` — a row of digit signs that can be read is a numeral.
-/
import Mathlib.Tactic.Common
import Cadence.Proofs.Text.Parts
import Cadence.Decimal.Reading

namespace Cadence

open Text

/-! ### Digits -/

namespace Text

/-- A decimal digit is less than ten places behind the zero of its script. -/
theorem isDecimalDigit_iff {c : Char} :
    isDecimalDigit c = true ↔ ∃ z ∈ digitZeros, z ≤ c.toNat ∧ c.toNat ≤ z + 9 := by
  simp [isDecimalDigit, digitValue?, List.find?_isSome]

theorem lowerChars_of_isDecimalDigit {c : Char} (h : isDecimalDigit c = true) :
    lowerChars c = [c] := by
  have hascii : ∀ n < 128, isDecimalDigit (Char.ofNat n) = true →
      (Char.ofNat n).toLower = Char.ofNat n := by
    decide +kernel
  have hruns : ∀ run ∈ capitalRuns, ∀ z ∈ digitZeros, run.2.1 < z ∨
      z + 9 < run.1 := by decide +kernel
  have hdot : c ≠ 'İ' := by
    rintro rfl
    exact absurd h (by decide)
  have hsame : lowerChar c = c := by
    unfold lowerChar
    split
    · next hsmall => simpa using hascii c.toNat hsmall (by simpa using h)
    · -- the digits of a script lie beside all runs of capital letters
      obtain ⟨z, hz, hle, hge⟩ := isDecimalDigit_iff.mp h
      rw [List.find?_eq_none.mpr]
      rintro ⟨first, last, gap, shift⟩ hrun
      have hbeside := hruns _ hrun z hz
      simp only [Bool.and_eq_true, decide_eq_true_eq] at hbeside ⊢
      omega
  rw [lowerChars, if_neg (by simpa using hdot), hsame]

theorem isDigitSign_of_isDecimalDigit {c : Char} (h : isDecimalDigit c = true) :
    isDigitSign c = true := by
  rw [isDigitSign, h, Bool.true_or]

theorem isBlank_of_isDigitSign {c : Char} (h : isDigitSign c = true) : isBlank c = false := by
  have hall : ∀ n ∈ blankCodes, isDigitSign (Char.ofNat n) = false := by decide +kernel
  cases hblank : isBlank c with
  | false => rfl
  | true =>
    have hsign := hall c.toNat (mem_blankCodes hblank)
    rw [Char.ofNat_toNat, h] at hsign
    cases hsign

/-- No capital letter has a digit as its small letter. -/
theorem isDecimalDigit_of_lowerChar {c : Char} (h : isDecimalDigit (lowerChar c) = true) :
    isDecimalDigit c = true := by
  have hascii : ∀ n < 128, isDecimalDigit (Char.ofNat n).toLower = true →
      isDecimalDigit (Char.ofNat n) = true := by
    decide +kernel
  have hruns : ∀ run ∈ capitalRuns, ∀ z ∈ digitZeros,
      (run.2.1 : Int) + run.2.2.2 < z ∨ (z : Int) + 9 < run.1 + run.2.2.2 := by decide +kernel
  have hpos : ∀ z ∈ digitZeros, 0 < z := by decide
  unfold lowerChar at h
  split at h
  · next hsmall => simpa using hascii c.toNat hsmall (by simpa using h)
  · split at h
    · next first last gap shift hfind =>
      -- the small letters of a run lie beside the digits of all scripts
      have hrange := List.find?_some hfind
      simp only [Bool.and_eq_true, decide_eq_true_eq] at hrange
      obtain ⟨z, hz, hle, hge⟩ := isDecimalDigit_iff.mp h
      have hbeside := hruns _ (List.mem_of_find?_eq_some hfind) z hz
      have hz := hpos z hz
      have hcode := toNat_ofNat_or (c.toNat + shift).toNat
      simp only at hbeside
      omega
    · exact h

theorem forall_isDecimalDigit_of_lower {cs : List Char}
    (h : ∀ d ∈ cs.flatMap lowerChars, isDecimalDigit d = true) :
    ∀ c ∈ cs, isDecimalDigit c = true := by
  intro c hc
  have hlower : ∀ d ∈ lowerChars c, isDecimalDigit d = true :=
    fun d hd => h d (List.mem_flatMap.mpr ⟨c, hc, hd⟩)
  unfold lowerChars at hlower
  split at hlower
  · exact absurd (hlower 'i' List.mem_cons_self) (by decide)
  · exact isDecimalDigit_of_lowerChar (hlower _ List.mem_cons_self)

end Text

/-! ### Numerals -/

/-- A row of decimal digits. -/
structure Numeral where
  chars : List Char
  chars_ne : chars ≠ []
  digits : ∀ c ∈ chars, isDecimalDigit c = true

namespace Numeral

/-- The number that a numeral writes. -/
def value (n : Numeral) : Nat := Decimal.digitsValue (n.chars.filterMap digitValue?)

/-- A numeral that does not have too many digits. -/
def IsReadable (n : Numeral) : Prop := n.chars.length ≤ Decimal.maxIntegerDigits

end Numeral

namespace Decimal

/-- Of a row of digits all are taken. -/
theorem takeDigits_of_forall {cs : List Char} (h : ∀ c ∈ cs, isDecimalDigit c = true) :
    takeDigits cs = some (cs.filterMap digitValue?, []) := by
  induction cs with
  | nil => rfl
  | cons c cs ih =>
    obtain ⟨d, hd⟩ := Option.isSome_iff_exists.mp (h c List.mem_cons_self)
    have hrest := ih fun x hx => h x (List.mem_cons_of_mem c hx)
    have hscore : ∀ rest, cs ≠ '_' :: rest := by
      rintro rest rfl
      exact absurd (h '_' (by simp)) (by decide)
    rw [takeDigits.eq_3 _ _ (fun rest => hscore rest), hd, hrest]
    simp [hd]

/-- A row without underscores of which all is taken is a row of digits. -/
theorem forall_of_takeDigits {cs : List Char} {ds : List Nat} (hscore : '_' ∉ cs)
    (h : takeDigits cs = some (ds, [])) :
    ∀ c ∈ cs, isDecimalDigit c = true := by
  induction cs generalizing ds with
  | nil => simp
  | cons c cs ih =>
    rw [List.mem_cons, not_or] at hscore
    have hnext : ∀ rest, cs ≠ '_' :: rest := by
      rintro rest rfl
      exact hscore.2 List.mem_cons_self
    rw [takeDigits.eq_3 _ _ fun rest => hnext rest] at h
    cases hd : digitValue? c with
    | none => simp [hd] at h
    | some d =>
      simp only [hd, Option.map_eq_some_iff] at h
      obtain ⟨⟨more, left⟩, htaken, heq⟩ := h
      obtain ⟨_, rfl⟩ := Prod.mk.inj heq
      intro x hx
      rcases List.mem_cons.mp hx with rfl | hx
      · rw [isDecimalDigit, hd]
        rfl
      · exact ih hscore.2 htaken x hx

theorem takeSign_of_ne {c : Char} {cs : List Char} (hminus : c ≠ '-') (hplus : c ≠ '+') :
    takeSign (c :: cs) = (false, c :: cs) := by
  unfold takeSign
  split
  · next h => exact absurd (List.cons.inj h).1 hminus
  · next h => exact absurd (List.cons.inj h).1 hplus
  · rfl

/-- Of a row of digit signs neither a blank nor a sign is taken away before its digits are read. -/
theorem takeSign_of_digitSigns {cs : List Char} (h : ∀ c ∈ cs, isDigitSign c = true) :
    takeSign (stripWhile isBlank cs) = (false, cs) := by
  rw [stripWhile_of_forall fun c hc => isBlank_of_isDigitSign (h c hc)]
  cases cs with
  | nil => rfl
  | cons c cs =>
    have hc := h c List.mem_cons_self
    refine takeSign_of_ne ?_ ?_
    · rintro rfl
      exact absurd hc (by decide)
    · rintro rfl
      exact absurd hc (by decide)

end Decimal

namespace Numeral

open Decimal

variable (n : Numeral)

theorem isDigitSign {c : Char} (h : c ∈ n.chars) : isDigitSign c = true :=
  isDigitSign_of_isDecimalDigit (n.digits c h)

theorem lower_chars : lower (String.ofList n.chars) = String.ofList n.chars :=
  lower_of_forall fun c hc => lowerChars_of_isDecimalDigit (n.digits c (by simpa using hc))

theorem length_values : (n.chars.filterMap digitValue?).length = n.chars.length := by
  rw [List.length_filterMap_eq_countP, List.countP_eq_length]
  exact n.digits

/-- **A numeral is read as its value, if it does not have too many digits.** -/
theorem integer?_eq : integer? (String.ofList n.chars) =
    if maxIntegerDigits < n.chars.length then .error (.tooLong n.chars.length)
      else .ok n.value := by
  have hlength := n.length_values
  unfold integer?
  rw [String.toList_ofList, takeSign_of_digitSigns fun c hc => n.isDigitSign hc]
  simp only [takeDigits_of_forall n.digits, value]
  cases hvalues : n.chars.filterMap digitValue? with
  | nil =>
    rw [hvalues] at hlength
    exact absurd (List.length_eq_zero_iff.mp hlength.symm) n.chars_ne
  | cons d ds =>
    rw [hvalues] at hlength
    simp only [hlength, Bool.false_eq_true, if_false]

end Numeral

/-- A row of digit signs that can be read is a numeral. -/
theorem exists_numeral {cs : List Char} {i : Int} (hsigns : ∀ c ∈ cs, isDigitSign c = true)
    (h : Decimal.integer? (String.ofList cs) = .ok i) :
    ∃ n : Numeral, n.chars = cs ∧ n.IsReadable ∧ i = n.value := by
  have hread := h
  unfold Decimal.integer? at hread
  rw [String.toList_ofList, Decimal.takeSign_of_digitSigns hsigns] at hread
  simp only at hread
  split at hread
  · next d ds htaken =>
    have hscore : '_' ∉ cs := fun hmem => absurd (hsigns '_' hmem) (by decide)
    have hne : cs ≠ [] := by
      rintro rfl
      cases htaken
    obtain ⟨n, rfl⟩ : ∃ n : Numeral, n.chars = cs :=
      ⟨⟨cs, hne, Decimal.forall_of_takeDigits hscore htaken⟩, rfl⟩
    rw [n.integer?_eq] at h
    split at h
    · cases h
    · next hshort => exact ⟨n, rfl, Nat.le_of_not_lt hshort, (Except.ok.inj h).symm⟩
  · cases hread

/-- The numeral of one digit. -/
def digitNumeral (n : Nat) (h : n < 10) : Numeral where
  chars := [n.digitChar]
  chars_ne := List.cons_ne_nil _ _
  digits := by
    have hall : ∀ n < 10, isDecimalDigit n.digitChar = true := by decide
    simpa using hall n h

theorem digitNumeral_value {n : Nat} (h : n < 10) : (digitNumeral n h).value = n := by
  have hall : ∀ n < 10, Decimal.digitsValue ([n.digitChar].filterMap digitValue?) = n := by decide
  exact hall n h

theorem digitNumeral_isReadable {n : Nat} (h : n < 10) : (digitNumeral n h).IsReadable := by
  simp [digitNumeral, Numeral.IsReadable, Decimal.maxIntegerDigits]

end Cadence
