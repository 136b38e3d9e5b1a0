/-
Texts taken apart and put together again.

* `splitChars_append_sep` — the parts of two texts with a separator between them;
* `splitChars_intercalate` — parts that are free of a separator, joined by it, are found again;
* `mem_intercalate` — what stands in parts that are joined;
* `cutAt_append`, `cutAt_of_not_mem`, `cutAt_cases` — a text is cut at the first occurrence
  of a character;
* `stripWhile_of_forall`, `stripWhile_of_ends` — a text without blanks, or without any at
  its ends, is not trimmed;
* `stripWhile_append`, `exists_stripWhile` — what is trimmed stands around what is left;
* `mem_lower`, `lowerChars_of_isBlank` — what stands in the lower-case form of a text;
* `foldl_digits_lt` — a row of digits bounds the number that it writes.
-/
import Mathlib.Algebra.Order.Group.Nat
import Mathlib.Algebra.Ring.Nat
import Mathlib.Data.List.Basic
import Mathlib.Tactic.Common
import Cadence.Text.Blank
import Cadence.Text.Case
import Cadence.Text.Digit

namespace Cadence.Text

variable {sep : Char} {cs a b : List Char}

/-! ### Parts between separators -/

theorem splitChars_of_not_mem (h : sep ∉ cs) : splitChars sep cs = [cs] := by
  induction cs with
  | nil => rfl
  | cons c cs ih =>
    rw [List.mem_cons, not_or] at h
    rw [splitChars, if_neg fun he => h.1 he.symm, ih h.2]

theorem splitChars_append (h : sep ∉ a) :
    splitChars sep (a ++ sep :: b) = a :: splitChars sep b := by
  induction a with
  | nil => rw [List.nil_append, splitChars, if_pos rfl]
  | cons c a ih =>
    rw [List.mem_cons, not_or] at h
    rw [List.cons_append, splitChars, if_neg fun he => h.1 he.symm, ih h.2]

theorem splitChars_ne_nil (sep : Char) (cs : List Char) : splitChars sep cs ≠ [] := by
  fun_cases splitChars sep cs <;> simp

/-- The parts of two texts with a separator between them are the parts of the one and then
of the other. -/
theorem splitChars_append_sep (sep : Char) (a b : List Char) :
    splitChars sep (a ++ sep :: b) = splitChars sep a ++ splitChars sep b := by
  induction a with
  | nil => simp [splitChars]
  | cons c a ih =>
    rw [List.cons_append, splitChars, splitChars, ih]
    cases hparts : splitChars sep a with
    | nil => exact absurd hparts (splitChars_ne_nil sep a)
    | cons part parts =>
      by_cases hc : c = sep
      · simp [hc]
      · simp [hc]

/-- Parts that are free of a separator, joined by it, are found again. -/
theorem splitChars_intercalate {parts : List (List Char)} (hne : parts ≠ [])
    (h : ∀ part ∈ parts, sep ∉ part) :
    splitChars sep ([sep].intercalate parts) = parts := by
  induction parts with
  | nil => exact absurd rfl hne
  | cons part parts ih =>
    have hpart : sep ∉ part := h part List.mem_cons_self
    cases parts with
    | nil => simpa using splitChars_of_not_mem hpart
    | cons next parts =>
      have hrest := ih (List.cons_ne_nil _ _) fun p hp => h p (List.mem_cons_of_mem part hp)
      rw [List.intercalate_cons_cons, List.append_assoc, List.singleton_append,
        splitChars_append hpart, hrest]

/-- What stands in parts that are joined stands in one of them, or is the separator of two. -/
theorem mem_intercalate {parts : List (List Char)} {c : Char} :
    c ∈ [sep].intercalate parts ↔ (c = sep ∧ 2 ≤ parts.length) ∨ ∃ part ∈ parts, c ∈ part := by
  induction parts with
  | nil => simp
  | cons part parts ih =>
    cases parts with
    | nil => simp
    | cons next parts =>
      rw [List.intercalate_cons_cons, List.mem_append, List.mem_append, List.mem_singleton, ih]
      simp only [List.mem_cons, exists_eq_or_imp, List.length_cons]
      constructor
      · rintro ((h | h) | (⟨h, _⟩ | h))
        · exact Or.inr (Or.inl h)
        · exact Or.inl ⟨h, by omega⟩
        · exact Or.inl ⟨h, by omega⟩
        · exact Or.inr (Or.inr h)
      · rintro (⟨h, _⟩ | h | h)
        · exact Or.inl (Or.inr h)
        · exact Or.inl (Or.inl h)
        · exact Or.inr (Or.inr h)

/-- Parts that are joined begin with the first one. -/
theorem exists_intercalate_cons (part : List Char) (parts : List (List Char)) :
    ∃ rest, [sep].intercalate (part :: parts) = part ++ rest := by
  cases parts with
  | nil => exact ⟨[], by simp⟩
  | cons next parts => exact ⟨_, by rw [List.intercalate_cons_cons, List.append_assoc]⟩

/-! ### Cuts -/

theorem cutAt_of_not_mem (h : sep ∉ cs) : cutAt sep cs = (cs, none) := by
  induction cs with
  | nil => rfl
  | cons c cs ih =>
    rw [List.mem_cons, not_or] at h
    rw [cutAt, if_neg fun he => h.1 he.symm, ih h.2]

theorem cutAt_append (h : sep ∉ a) : cutAt sep (a ++ sep :: b) = (a, some b) := by
  induction a with
  | nil => rw [List.nil_append, cutAt, if_pos rfl]
  | cons c a ih =>
    rw [List.mem_cons, not_or] at h
    rw [List.cons_append, cutAt, if_neg fun he => h.1 he.symm, ih h.2]

/-- A text is the part before the first occurrence of a character, or that part, the
character and the rest. -/
theorem cutAt_cases (sep : Char) (cs : List Char) :
    (sep ∉ cs ∧ cutAt sep cs = (cs, none)) ∨
      ∃ a b, sep ∉ a ∧ cs = a ++ sep :: b ∧ cutAt sep cs = (a, some b) := by
  by_cases h : sep ∈ cs
  · obtain ⟨a, b, rfl, ha⟩ := List.eq_append_cons_of_mem h
    exact Or.inr ⟨a, b, ha, rfl, cutAt_append ha⟩
  · exact Or.inl ⟨h, cutAt_of_not_mem h⟩

/-- Texts that are cut into the same parts are the same. -/
theorem cutAt_inj (h : cutAt sep a = cutAt sep b) : a = b := by
  rcases cutAt_cases sep a with ⟨_, ha⟩ | ⟨a₁, a₂, _, rfl, ha⟩ <;>
    rcases cutAt_cases sep b with ⟨_, hb⟩ | ⟨b₁, b₂, _, rfl, hb⟩ <;> simp_all

/-! ### Ends -/

theorem dropWhile_of_head? {p : Char → Bool} (h : ∀ c ∈ cs.head?, p c = false) :
    cs.dropWhile p = cs := by
  cases cs with
  | nil => rfl
  | cons c cs => rw [List.dropWhile_cons_of_neg (by simp [h c rfl])]

/-- A text that neither begins nor ends with a character of a class has none at its ends. -/
theorem stripWhile_of_ends {p : Char → Bool} (hhead : ∀ c ∈ cs.head?, p c = false)
    (hlast : ∀ c ∈ cs.getLast?, p c = false) : stripWhile p cs = cs := by
  rw [stripWhile, dropWhile_of_head? hhead,
    dropWhile_of_head? (by rwa [List.head?_reverse]), List.reverse_reverse]

theorem stripWhile_of_forall {p : Char → Bool} (h : ∀ c ∈ cs, p c = false) : stripWhile p cs = cs :=
  stripWhile_of_ends (fun c hc => h c (List.mem_of_head? hc)) fun c hc =>
    h c (List.mem_of_getLast? hc)

/-- What stands between characters of a class, and neither begins nor ends with one, is left. -/
theorem stripWhile_append {p : Char → Bool} (ha : ∀ c ∈ a, p c = true) (hb : ∀ c ∈ b, p c = true)
    (hne : cs ≠ []) (hhead : ∀ c ∈ cs.head?, p c = false) (hlast : ∀ c ∈ cs.getLast?, p c = false) :
    stripWhile p (a ++ cs ++ b) = cs := by
  have hfront : (cs ++ b).dropWhile p = cs ++ b :=
    dropWhile_of_head? (by rwa [List.head?_append_of_ne_nil _ hne])
  have hend : ∀ c ∈ b.reverse, p c = true := by simpa using hb
  have hback : cs.reverse.dropWhile p = cs.reverse :=
    dropWhile_of_head? (by rwa [List.head?_reverse])
  rw [stripWhile, List.append_assoc, List.dropWhile_append_of_pos ha, hfront, List.reverse_append,
    List.dropWhile_append_of_pos hend, hback, List.reverse_reverse]

/-- A text is what is left of it between characters of the class. -/
theorem exists_stripWhile (p : Char → Bool) (cs : List Char) :
    ∃ a b, (∀ c ∈ a, p c = true) ∧ (∀ c ∈ b, p c = true) ∧ cs = a ++ stripWhile p cs ++ b := by
  have htake (ds : List Char) : ∀ c ∈ ds.takeWhile p, p c = true :=
    List.all_eq_true.mp List.all_takeWhile
  refine ⟨cs.takeWhile p, ((cs.dropWhile p).reverse.takeWhile p).reverse, htake cs, ?_, ?_⟩
  · simpa using htake (cs.dropWhile p).reverse
  · rw [stripWhile, List.append_assoc, ← List.reverse_append,
      List.takeWhile_append_dropWhile, List.reverse_reverse,
      List.takeWhile_append_dropWhile]

/-- What is left of a text begins with no character of the class. -/
theorem head?_stripWhile {p : Char → Bool} {c : Char}
    (h : (stripWhile p cs).head? = some c) : p c = false := by
  have hprefix : stripWhile p cs <+: cs.dropWhile p := by
    rw [stripWhile, ← List.reverse_suffix, List.reverse_reverse]
    exact List.dropWhile_suffix p
  have hhead : (cs.dropWhile p).head? = some c := by
    obtain ⟨rest, hrest⟩ := hprefix
    rw [← hrest, List.head?_append, h]
    rfl
  simpa [hhead] using List.head?_dropWhile_not p cs

theorem mem_of_mem_stripWhile {p : Char → Bool} {c : Char} (h : c ∈ stripWhile p cs) : c ∈ cs := by
  rw [stripWhile, List.mem_reverse] at h
  have hdropped := (List.dropWhile_sublist p).mem h
  rw [List.mem_reverse] at hdropped
  exact (List.dropWhile_sublist p).mem hdropped

/-! ### Letter case -/

theorem toList_lower (s : String) : (lower s).toList = lowerFrom [] s.toList := String.toList_ofList

/-- A character with a lower-case form of its own has it wherever it stands. -/
theorem lowerFrom_eq_flatMap {before : List Char} (h : 'Σ' ∉ cs) :
    lowerFrom before cs = cs.flatMap lowerChars := by
  induction cs generalizing before with
  | nil => rfl
  | cons c cs ih =>
    obtain ⟨hc, hcs⟩ := not_or.mp fun hmem => h (List.mem_cons.mpr hmem)
    have hne : (c == 'Σ') = false := beq_false_of_ne (Ne.symm hc)
    rw [lowerFrom, hne, ih hcs]
    rfl

/-- What stands in the lower-case form of a text is a final sigma or from one of the characters. -/
theorem mem_lowerFrom {before : List Char} {d : Char} (h : d ∈ lowerFrom before cs) :
    d = 'ς' ∨ ∃ c ∈ cs, d ∈ lowerChars c := by
  induction cs generalizing before with
  | nil => cases h
  | cons c cs ih =>
    rw [lowerFrom, List.mem_append] at h
    rcases h with h | h
    · split at h
      · exact Or.inl (List.mem_singleton.mp h)
      · exact Or.inr ⟨c, List.mem_cons_self, h⟩
    · exact (ih h).imp_right fun ⟨e, he, hd⟩ => ⟨e, List.mem_cons_of_mem c he, hd⟩

/-- A capital sigma becomes one of the two small ones. -/
theorem sigma_mem_lowerFrom {before : List Char} (h : 'Σ' ∈ cs) :
    'ς' ∈ lowerFrom before cs ∨ 'σ' ∈ lowerFrom before cs := by
  induction cs generalizing before with
  | nil => cases h
  | cons c cs ih =>
    rw [lowerFrom, List.mem_append, List.mem_append]
    rcases List.mem_cons.mp h with rfl | h
    · split
      · exact Or.inl (Or.inl (List.mem_singleton_self _))
      · exact Or.inr (Or.inl (by decide +kernel))
    · exact (ih h).imp Or.inr Or.inr

/-- A character that is its own lower-case form stands in the lower-case form of each text
it stands in. -/
theorem mem_lower {c : Char} {s : String} (hc : lowerChars c = [c]) (h : c ∈ s.toList) :
    c ∈ (lower s).toList := by
  have hne : c ≠ 'Σ' := by
    rintro rfl
    revert hc
    decide +kernel
  rw [toList_lower]
  generalize s.toList = cs at h
  generalize [] = before
  induction cs generalizing before with
  | nil => cases h
  | cons d cs ih =>
    rw [lowerFrom, List.mem_append]
    rcases List.mem_cons.mp h with rfl | h
    · rw [beq_false_of_ne hne]
      exact Or.inl (hc ▸ List.mem_singleton_self c)
    · exact Or.inr (ih h _)

theorem flatMap_lowerChars_of_forall (h : ∀ c ∈ cs, lowerChars c = [c]) :
    cs.flatMap lowerChars = cs := by
  induction cs with
  | nil => rfl
  | cons c cs ih =>
    rw [List.flatMap_cons, h c List.mem_cons_self, ih fun d hd =>
      h d (List.mem_cons_of_mem c hd), List.singleton_append]

/-- A text of characters that are their own lower-case forms is in lower case. -/
theorem lower_of_forall {s : String} (h : ∀ c ∈ s.toList, lowerChars c = [c]) : lower s = s := by
  have hsigma : 'Σ' ∉ s.toList := fun hmem => absurd (h _ hmem) (by decide +kernel)
  rw [lower, lowerFrom_eq_flatMap hsigma, flatMap_lowerChars_of_forall h, String.ofList_toList]

/-- A code that is none of a character stands for the first one. -/
theorem toNat_ofNat_or (n : Nat) : (Char.ofNat n).toNat = n ∨ (Char.ofNat n).toNat = 0 := by
  by_cases h : n.isValidChar
  · exact Or.inl (by rw [Char.ofNat, dif_pos h]; rfl)
  · exact Or.inr (by rw [Char.ofNat, dif_neg h]; rfl)

/-- The code points of the blanks. -/
def blankCodes : List Nat :=
  [9, 10, 11, 12, 13, 28, 29, 30, 31, 32, 0x85, 0xa0, 0x1680, 0x2000, 0x2001, 0x2002,
    0x2003, 0x2004, 0x2005, 0x2006,
    0x2007, 0x2008, 0x2009, 0x200a, 0x2028, 0x2029, 0x202f, 0x205f, 0x3000]

theorem mem_blankCodes {c : Char} (h : isBlank c = true) : c.toNat ∈ blankCodes := by
  simp only [isBlank, Bool.or_eq_true, Bool.and_eq_true, decide_eq_true_eq, beq_iff_eq] at h
  simp only [blankCodes, List.mem_cons, List.not_mem_nil, or_false]
  omega

theorem lowerChars_of_isBlank {c : Char} (h : isBlank c = true) : lowerChars c = [c] := by
  have hall : ∀ n ∈ blankCodes, lowerChars (Char.ofNat n) = [Char.ofNat n] := by decide +kernel
  simpa using hall c.toNat (mem_blankCodes h)

/-! ### Digits -/

/-- What a row of digits adds to the number before it has no more digits than the row. -/
theorem foldl_digits_lt {ds : List Char} (h : ∀ c ∈ ds, isAsciiDigit c = true) (v : Nat) :
    ds.foldl (fun v d => 10 * v + (d.toNat - '0'.toNat)) v < (v + 1) * 10 ^ ds.length := by
  induction ds generalizing v with
  | nil => simp
  | cons c ds ih =>
    obtain ⟨hc, hds⟩ := List.forall_mem_cons.mp h
    have hdigit : c.toNat - '0'.toNat ≤ 9 := by
      simp only [isAsciiDigit, Bool.and_eq_true, decide_eq_true_eq, Char.le_def,
        UInt32.le_iff_toNat_le] at hc
      change 48 ≤ c.toNat ∧ c.toNat ≤ 57 at hc
      show c.toNat - 48 ≤ 9
      omega
    rw [List.foldl_cons, List.length_cons, Nat.pow_succ']
    calc ds.foldl (fun v d => 10 * v + (d.toNat - '0'.toNat)) (10 * v + (c.toNat - '0'.toNat))
        < (10 * v + (c.toNat - '0'.toNat) + 1) * 10 ^ ds.length := ih hds _
      _ ≤ ((v + 1) * 10) * 10 ^ ds.length := Nat.mul_le_mul_right _ (by omega)
      _ = (v + 1) * (10 * 10 ^ ds.length) := Nat.mul_assoc _ _ _

end Cadence.Text
