/-
Numbers in JSON text.

A number is an optional minus sign, digits without a superfluous zero in front, and perhaps
a fraction and an exponent. Without these two it is an integer, which may have too many
digits to be read.

* `Json.Yields` — what a reader comes to that refuses long integers and nothing else;
* `Json.Number` — the numbers, how they are written and what they stand for;
* `Json.Follows` — what may follow a number without becoming part of it;
* **`Json.readNumber_chars`** — a number is read as what it stands for, unless it is too long;
* **`Json.exists_number`** — and only numbers are read.
-/
import Mathlib.Tactic.Common
import Cadence.Json.Read

namespace Cadence.Json

open Text

/-! ### Readers that refuse long integers -/

/-- A reader comes to a value, if all integers are short; else it finds one that is too long. -/
def Yields {α : Type} (short : Bool) (value : α) (result : Except Stop α) : Prop :=
  if short then result = .ok value else ∃ digits, result = .error (.tooLong digits)

namespace Yields

variable {α β : Type} {short short' : Bool} {a : α} {b : β} {x : Except Stop α}

theorem ok (a : α) : Yields true a (.ok a) := rfl

theorem bind (h : Yields short a x) {f : α → Except Stop β} (hf : Yields short' b (f a)) :
    Yields (short && short') b (x >>= f) := by
  cases short with
  | true =>
    obtain rfl : x = .ok a := h
    exact hf
  | false =>
    obtain ⟨digits, rfl⟩ : ∃ digits, x = .error (.tooLong digits) := h
    exact ⟨digits, rfl⟩

theorem bind_ok (h : Yields short a x) {f : α → Except Stop β} (hf : f a = .ok b) :
    Yields short b (x >>= f) := by
  rw [← Bool.and_true short]
  exact h.bind hf

theorem map (h : Yields short a x) (f : α → β) : Yields short (f a) (x.map f) := by
  cases short with
  | true =>
    obtain rfl : x = .ok a := h
    rfl
  | false =>
    obtain ⟨digits, rfl⟩ : ∃ digits, x = .error (.tooLong digits) := h
    exact ⟨digits, rfl⟩

end Yields

/-! ### Digits -/

/-- A row of digits that is not empty. -/
def IsDigits (ds : List Char) : Prop := ds ≠ [] ∧ ∀ c ∈ ds, isAsciiDigit c = true

/-- The characters do not begin with a digit. -/
def NoDigit (cs : List Char) : Prop := ∀ c ∈ cs.head?, isAsciiDigit c = false

/-- What may follow a number without becoming part of it. -/
def Follows (cs : List Char) : Prop :=
  ∀ c ∈ cs.head?, isAsciiDigit c = false ∧ c ≠ '.' ∧ c ≠ 'e' ∧ c ≠ 'E'

theorem Follows.noDigit {cs : List Char} (h : Follows cs) : NoDigit cs := fun c hc => (h c hc).1

section

variable {cs ds rest : List Char}

/-- Digits are taken up to the first character that is none. -/
theorem takeWhile_digits (hds : ∀ c ∈ ds, isAsciiDigit c = true) (hrest : NoDigit rest) :
    (ds ++ rest).takeWhile isAsciiDigit = ds ∧ (ds ++ rest).dropWhile isAsciiDigit = rest := by
  rw [List.takeWhile_append_of_pos hds, List.dropWhile_append_of_pos hds]
  cases rest with
  | nil => exact ⟨List.append_nil ds, rfl⟩
  | cons c rest =>
    have hc : isAsciiDigit c = false := hrest c rfl
    rw [List.takeWhile_cons, List.dropWhile_cons, hc]
    exact ⟨List.append_nil ds, rfl⟩

theorem forall_mem_takeWhile_digits (cs : List Char) :
    ∀ c ∈ cs.takeWhile isAsciiDigit, isAsciiDigit c = true :=
  List.all_eq_true.mp List.all_takeWhile

end

/-! ### Numbers -/

/-- An exponent: its letter, perhaps a sign, and digits. -/
structure Exponent where
  letter : Char
  letter_ok : letter = 'e' ∨ letter = 'E'
  /-- Whether the sign is a minus, if there is a sign. -/
  sign : Option Bool
  digits : List Char
  digits_ok : IsDigits digits

/-- How a sign is written. -/
def signChars : Option Bool → List Char
  | none => []
  | some true => ['-']
  | some false => ['+']

namespace Exponent

/-- How an exponent is written. -/
def chars (e : Exponent) : List Char := e.letter :: (signChars e.sign ++ e.digits)

/-- The power of ten. -/
def value (e : Exponent) : Int :=
  if e.sign = some true then -(digitsNat e.digits : Int) else digitsNat e.digits

end Exponent

/-- A number. -/
structure Number where
  negative : Bool
  /-- The digits before the point. -/
  whole : List Char
  whole_ok : whole = ['0'] ∨ IsDigits whole ∧ whole.head? ≠ some '0'
  /-- The digits behind the point, if there is one. -/
  fraction : Option (List Char)
  fraction_ok : ∀ ds ∈ fraction, IsDigits ds
  exponent : Option Exponent

namespace Number

/-- How the fraction is written. -/
def fractionChars (n : Number) : List Char := n.fraction.elim [] ('.' :: ·)

/-- How the exponent is written. -/
def exponentChars (n : Number) : List Char := n.exponent.elim [] Exponent.chars

/-- How a number is written. -/
def chars (n : Number) : List Char :=
  (if n.negative then ['-'] else []) ++ (n.whole ++ (n.fractionChars ++ n.exponentChars))

/-- Whether a number is written as an integer. -/
def isInteger (n : Number) : Bool := n.fraction.isNone && n.exponent.isNone

/-- Whether a number can be read: an integer may have only so many digits. -/
def isShort (n : Number) : Bool :=
  !(n.isInteger && decide (Decimal.maxIntegerDigits < n.whole.length))

/-- What a number stands for: an integer, or the floating-point number nearest to it. -/
def value (n : Number) : Json :=
  if n.isInteger then .int (if n.negative then -(digitsNat n.whole : Int) else digitsNat n.whole)
  else
    let fraction := n.fraction.getD []
    let x := Decimal.nearest (digitsNat (n.whole ++ fraction))
      ((n.exponent.map (·.value)).getD 0 - fraction.length)
    .float (if n.negative then -x else x)

end Number

theorem Number.isDigits_whole (n : Number) : IsDigits n.whole := by
  rcases n.whole_ok with h | h
  · rw [h]
    exact ⟨List.cons_ne_nil _ _, List.forall_mem_singleton.mpr rfl⟩
  · exact h.1

/-! ### Reading numbers -/

section

variable {cs ds rest : List Char}

theorem readWhole_whole (n : Number) (hrest : NoDigit rest) :
    readWhole (n.whole ++ rest) = some (n.whole, rest) := by
  rcases n.whole_ok with h | ⟨⟨hne, hdigits⟩, hzero⟩
  · rw [h]
    rfl
  · obtain ⟨c, cs, hcs⟩ := List.exists_cons_of_ne_nil hne
    rw [hcs] at hdigits hzero ⊢
    obtain ⟨hc, hdigits⟩ := List.forall_mem_cons.mp hdigits
    obtain ⟨htake, hdrop⟩ := takeWhile_digits hdigits hrest
    have hc0 : c ≠ '0' := fun h => hzero (congrArg some h)
    rw [List.cons_append, readWhole, if_neg hc0, if_pos hc, htake, hdrop]

theorem readFraction_digits (hds : IsDigits ds) (hrest : NoDigit rest) :
    readFraction ('.' :: (ds ++ rest)) = some (ds, rest) := by
  obtain ⟨htake, hdrop⟩ := takeWhile_digits hds.2 hrest
  rw [readFraction, htake, hdrop, if_neg (by simpa using hds.1)]

theorem readFraction_eq_none (h : ∀ c ∈ cs.head?, c ≠ '.') : readFraction cs = none := by
  unfold readFraction
  split
  · exact absurd rfl (h '.' rfl)
  · rfl

theorem takeSign_signChars (sign : Option Bool) (hds : IsDigits ds) :
    Decimal.takeSign (signChars sign ++ (ds ++ rest)) =
      (decide (sign = some true), ds ++ rest) := by
  match sign with
  | some true => rfl
  | some false => rfl
  | none =>
    obtain ⟨c, cs, hcs⟩ := List.exists_cons_of_ne_nil hds.1
    have hc : isAsciiDigit c = true := hds.2 c (hcs ▸ List.mem_cons_self)
    rw [hcs]
    show Decimal.takeSign (c :: (cs ++ rest)) = (false, c :: (cs ++ rest))
    unfold Decimal.takeSign
    split
    · next heq =>
      obtain rfl := (List.cons.inj heq).1
      exact absurd hc (by decide)
    · next heq =>
      obtain rfl := (List.cons.inj heq).1
      exact absurd hc (by decide)
    · rfl

theorem readExponent_chars (e : Exponent) (hrest : NoDigit rest) :
    readExponent (e.chars ++ rest) = some (e.value, rest) := by
  obtain ⟨htake, hdrop⟩ := takeWhile_digits e.digits_ok.2 hrest
  have hletter : (e.letter == 'e' || e.letter == 'E') = true := by simpa using e.letter_ok
  rw [Exponent.chars, List.cons_append, readExponent, if_pos hletter, List.append_assoc,
    takeSign_signChars e.sign e.digits_ok]
  dsimp only
  rw [htake, hdrop, if_neg (by simpa using e.digits_ok.1), Exponent.value]
  simp only [decide_eq_true_eq]

theorem readExponent_eq_none (h : ∀ c ∈ cs.head?, c ≠ 'e' ∧ c ≠ 'E') : readExponent cs = none := by
  cases cs with
  | nil => rfl
  | cons c cs =>
    obtain ⟨he, hE⟩ := h c rfl
    rw [readExponent, if_neg (by simp [he, hE])]

end

namespace Number

variable {rest : List Char}

/-- What follows the fraction of a number does not begin with a digit or a point. -/
theorem head?_exponentChars (n : Number) (hrest : Follows rest) :
    ∀ c ∈ (n.exponentChars ++ rest).head?, isAsciiDigit c = false ∧ c ≠ '.' := by
  unfold exponentChars
  cases n.exponent with
  | none => exact fun c hc => ⟨(hrest c hc).1, (hrest c hc).2.1⟩
  | some e =>
    rintro c ⟨⟩
    rcases e.letter_ok with h | h <;>
    · show isAsciiDigit e.letter = false ∧ e.letter ≠ '.'
      rw [h]
      decide

theorem noDigit_fractionChars (n : Number) (hrest : Follows rest) :
    NoDigit (n.fractionChars ++ (n.exponentChars ++ rest)) := by
  unfold fractionChars
  cases n.fraction with
  | none => exact fun c hc => (n.head?_exponentChars hrest c hc).1
  | some ds =>
    rintro c ⟨⟩
    decide

theorem readFraction_chars (n : Number) (hrest : Follows rest) :
    ((readFraction (n.fractionChars ++ (n.exponentChars ++ rest))).map (·.1) = n.fraction) ∧
      ((readFraction (n.fractionChars ++ (n.exponentChars ++ rest))).map (·.2)).getD
        (n.fractionChars ++ (n.exponentChars ++ rest)) = n.exponentChars ++ rest := by
  have hhead := n.head?_exponentChars hrest
  unfold fractionChars
  cases hfraction : n.fraction with
  | none =>
    rw [Option.elim_none, List.nil_append, readFraction_eq_none fun c hc => (hhead c hc).2]
    exact ⟨rfl, rfl⟩
  | some ds =>
    rw [Option.elim_some, List.cons_append,
      readFraction_digits (n.fraction_ok ds hfraction) fun c hc => (hhead c hc).1]
    exact ⟨rfl, rfl⟩

theorem readExponent_chars (n : Number) (hrest : Follows rest) :
    ((readExponent (n.exponentChars ++ rest)).map (·.1) = n.exponent.map (·.value)) ∧
      ((readExponent (n.exponentChars ++ rest)).map (·.2)).getD
        (n.exponentChars ++ rest) = rest := by
  unfold exponentChars
  cases n.exponent with
  | none =>
    rw [Option.elim_none, List.nil_append, readExponent_eq_none fun c hc => (hrest c hc).2.2]
    exact ⟨rfl, rfl⟩
  | some e =>
    rw [Option.elim_some, Json.readExponent_chars e hrest.noDigit]
    exact ⟨rfl, rfl⟩

end Number

/-- A number whose sign has been read. -/
def readUnsigned (negative : Bool) (cs : List Char) : Option (Except Stop (Json × List Char)) :=
  (readWhole cs).map fun (whole, rest) =>
    let fraction := readFraction rest
    let rest := (fraction.map (·.2)).getD rest
    let exponent := readExponent rest
    let rest := (exponent.map (·.2)).getD rest
    if fraction.isNone && exponent.isNone then
      if Decimal.maxIntegerDigits < whole.length then .error (.tooLong whole.length)
      else .ok (.int (if negative then -(digitsNat whole : Int) else digitsNat whole), rest)
    else
      let digits := (fraction.map (·.1)).getD []
      let x := Decimal.nearest (digitsNat (whole ++ digits))
        ((exponent.map (·.1)).getD 0 - digits.length)
      .ok (.float (if negative then -x else x), rest)

theorem readNumber_minus (cs : List Char) : readNumber ('-' :: cs) = readUnsigned true cs := rfl

theorem readNumber_unsigned {cs : List Char} (h : ∀ c ∈ cs.head?, c ≠ '-') :
    readNumber cs = readUnsigned false cs := by
  unfold readNumber
  split
  next negative unsigned heq =>
    split at heq
    · exact absurd rfl (h '-' rfl)
    · obtain ⟨rfl, rfl⟩ := Prod.mk.inj heq
      rfl

theorem readUnsigned_chars (n : Number) {rest : List Char} (hrest : Follows rest) :
    ∃ result, readUnsigned n.negative
      (n.whole ++ (n.fractionChars ++ (n.exponentChars ++ rest))) = some result ∧
      Yields n.isShort (n.value, rest) result := by
  obtain ⟨hfraction, hafter⟩ := n.readFraction_chars hrest
  obtain ⟨hexponent, hlast⟩ := n.readExponent_chars hrest
  have hpoint : (readFraction (n.fractionChars ++ (n.exponentChars ++ rest))).isNone =
      n.fraction.isNone := by
    rw [← hfraction, Option.isNone_map]
  have hpower : (readExponent (n.exponentChars ++ rest)).isNone = n.exponent.isNone := by
    rw [← Option.isNone_map (f := Exponent.value), ← hexponent, Option.isNone_map]
  rw [readUnsigned, readWhole_whole n (n.noDigit_fractionChars hrest), Option.map_some]
  refine ⟨_, rfl, ?_⟩
  dsimp only
  rw [hpoint, hafter, hpower, hlast, hfraction, hexponent]
  unfold Number.isShort Number.value
  show Yields (!(n.isInteger && _)) (if n.isInteger then _ else _, rest)
    (if n.isInteger then _ else _)
  cases n.isInteger with
  | false => exact .ok _
  | true =>
    simp only [if_true, Bool.true_and]
    by_cases hlong : Decimal.maxIntegerDigits < n.whole.length
    · rw [if_pos hlong, decide_eq_true hlong]
      exact ⟨_, rfl⟩
    · rw [if_neg hlong, decide_eq_false hlong]
      exact .ok _

/-- **A number is read as what it stands for, unless it is an integer that is too long.** -/
theorem readNumber_chars (n : Number) {rest : List Char} (hrest : Follows rest) :
    ∃ result, readNumber (n.chars ++ rest) = some result ∧
      Yields n.isShort (n.value, rest) result := by
  have hunsigned := readUnsigned_chars n hrest
  have hchars : n.chars ++ rest = (if n.negative then ['-'] else []) ++
      (n.whole ++ (n.fractionChars ++ (n.exponentChars ++ rest))) := by
    simp only [Number.chars, List.append_assoc]
  rw [hchars]
  cases hnegative : n.negative with
  | true =>
    rw [hnegative] at hunsigned
    exact hunsigned
  | false =>
    rw [hnegative] at hunsigned
    obtain ⟨c, cs, hcs⟩ := List.exists_cons_of_ne_nil n.isDigits_whole.1
    have hc : isAsciiDigit c = true := n.isDigits_whole.2 c (hcs ▸ List.mem_cons_self)
    rw [hcs] at hunsigned ⊢
    rw [readNumber_unsigned]
    · exact hunsigned
    · rintro d ⟨⟩ rfl
      exact absurd hc (by decide)

/-! ### Only numbers are read -/

section

variable {cs ds rest : List Char}

theorem readWhole_eq_some {whole : List Char} (h : readWhole cs = some (whole, rest)) :
    cs = whole ++ rest ∧ (whole = ['0'] ∨ IsDigits whole ∧ whole.head? ≠ some '0') := by
  cases cs with
  | nil => cases h
  | cons c cs =>
    rw [readWhole] at h
    split at h
    · next hzero =>
      cases h
      exact ⟨by rw [hzero, List.singleton_append], Or.inl rfl⟩
    · next hzero =>
      split at h
      · next hdigit =>
        cases h
        refine ⟨by rw [List.cons_append, List.takeWhile_append_dropWhile],
          Or.inr ⟨⟨List.cons_ne_nil _ _, ?_⟩, ?_⟩⟩
        · exact List.forall_mem_cons.mpr ⟨hdigit, forall_mem_takeWhile_digits cs⟩
        · exact fun hhead => hzero (Option.some.inj hhead)
      · cases h

theorem readFraction_eq_some (h : readFraction cs = some (ds, rest)) :
    cs = '.' :: (ds ++ rest) ∧ IsDigits ds := by
  unfold readFraction at h
  split at h
  · next cs =>
    dsimp only at h
    split at h
    · cases h
    · next hne =>
      cases h
      rw [List.takeWhile_append_dropWhile]
      exact ⟨rfl, by simpa using hne, forall_mem_takeWhile_digits cs⟩
  · cases h

theorem exists_sign (cs : List Char) :
    ∃ sign, cs = signChars sign ++ (Decimal.takeSign cs).2 ∧
      (Decimal.takeSign cs).1 = decide (sign = some true) := by
  unfold Decimal.takeSign
  split
  · exact ⟨some true, rfl, rfl⟩
  · exact ⟨some false, rfl, rfl⟩
  · exact ⟨none, rfl, rfl⟩

theorem readExponent_eq_some {value : Int} (h : readExponent cs = some (value, rest)) :
    ∃ e : Exponent, cs = e.chars ++ rest ∧ e.value = value := by
  cases cs with
  | nil => cases h
  | cons c cs =>
    rw [readExponent] at h
    split at h
    · next hletter =>
      obtain ⟨sign, hcs, hnegative⟩ := exists_sign cs
      dsimp only at h
      split at h
      · cases h
      · next hne =>
        cases h
        refine ⟨⟨c, by simpa using hletter, sign, _, by simpa using hne,
          forall_mem_takeWhile_digits _⟩, ?_, ?_⟩
        · rw [Exponent.chars, List.cons_append, List.append_assoc,
            List.takeWhile_append_dropWhile, ← hcs]
        · rw [Exponent.value, hnegative]
          simp only [decide_eq_true_eq]
    · cases h

end

/-- What stands before the rest is a fraction, if one is read, and nothing otherwise. -/
theorem exists_fraction (cs : List Char) :
    (∀ ds ∈ (readFraction cs).map (·.1), IsDigits ds) ∧
      cs = ((readFraction cs).map (·.1)).elim [] ('.' :: ·) ++
        ((readFraction cs).map (·.2)).getD cs := by
  cases h : readFraction cs with
  | none => exact ⟨nofun, rfl⟩
  | some p =>
    obtain ⟨hcs, hds⟩ := readFraction_eq_some h
    exact ⟨fun ds hmem => Option.some.inj hmem ▸ hds, hcs⟩

/-- What stands before the rest is an exponent, if one is read, and nothing otherwise. -/
theorem exists_exponent (cs : List Char) :
    ∃ e : Option Exponent, e.map (·.value) = (readExponent cs).map (·.1) ∧
      cs = e.elim [] Exponent.chars ++ ((readExponent cs).map (·.2)).getD cs := by
  cases h : readExponent cs with
  | none => exact ⟨none, rfl, rfl⟩
  | some p =>
    obtain ⟨e, hcs, hvalue⟩ := readExponent_eq_some h
    exact ⟨some e, congrArg some hvalue, hcs⟩

theorem exists_unsigned {negative : Bool} {cs rest : List Char} {v : Json}
    (h : readUnsigned negative cs = some (.ok (v, rest))) :
    ∃ n : Number, (if negative then ['-'] else []) ++ cs = n.chars ++ rest ∧ n.value = v := by
  obtain ⟨⟨whole, behind⟩, hwhole, hread⟩ := Option.map_eq_some_iff.mp h
  obtain ⟨rfl, hdigits⟩ := readWhole_eq_some hwhole
  obtain ⟨hfraction, hbehind⟩ := exists_fraction behind
  obtain ⟨e, hvalue, hend⟩ := exists_exponent (((readFraction behind).map (·.2)).getD behind)
  have hpower :
      e.isNone = (readExponent (((readFraction behind).map (·.2)).getD behind)).isNone := by
    rw [← Option.isNone_map (f := Exponent.value), hvalue, Option.isNone_map]
  let n : Number := ⟨negative, whole, hdigits, (readFraction behind).map (·.1), hfraction, e⟩
  have hinteger : n.isInteger = ((readFraction behind).isNone &&
      (readExponent (((readFraction behind).map (·.2)).getD behind)).isNone) := by
    rw [← hpower, Number.isInteger, Option.isNone_map]
  dsimp only at hread
  rw [← hinteger, ← hvalue] at hread
  have hresult : n.value = v ∧
      ((readExponent (((readFraction behind).map (·.2)).getD behind)).map (·.2)).getD
      (((readFraction behind).map (·.2)).getD behind) = rest := by
    unfold Number.value
    cases hkind : n.isInteger with
    | true =>
      rw [hkind, if_pos rfl] at hread
      split at hread
      · cases hread
      · exact Prod.mk.inj (Except.ok.inj hread)
    | false =>
      rw [hkind, if_neg Bool.false_ne_true] at hread
      exact Prod.mk.inj (Except.ok.inj hread)
  refine ⟨n, ?_, hresult.1⟩
  rw [hresult.2] at hend
  rw [Number.chars, List.append_assoc, List.append_assoc, List.append_assoc]
  show _ = _ ++ (whole ++ (Option.elim _ [] _ ++ (e.elim [] Exponent.chars ++ rest)))
  rw [← hend, ← hbehind]

/-- **Only numbers are read**, and as what they stand for. -/
theorem exists_number {cs rest : List Char} {v : Json} (h : readNumber cs = some (.ok (v, rest))) :
    ∃ n : Number, cs = n.chars ++ rest ∧ n.value = v := by
  match cs with
  | [] => cases h
  | c :: cs =>
    by_cases hminus : c = '-'
    · subst hminus
      exact exists_unsigned ((readNumber_minus cs).symm.trans h)
    · have hunsigned : readUnsigned false (c :: cs) = some (.ok (v, rest)) := by
        refine (readNumber_unsigned ?_).symm.trans h
        rintro d ⟨⟩
        exact hminus
      exact exists_unsigned hunsigned

end Cadence.Json
