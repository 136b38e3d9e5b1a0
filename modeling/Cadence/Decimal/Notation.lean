/-
The text of a floating-point number.

The digits are those of the shortest decimal that reads back.  A decimal whose leading digit has an
exponent from -4 to 15 is written positionally and always with a point; any other with an exponent
of at least two digits and a sign.  Zero keeps its sign.

* `text` — the text of any number, with `nan`, `inf` and `-inf` for those that are not finite;
* `textWith` — the same with other words for them.
-/
import Cadence.Decimal.Shortest

namespace Cadence.Decimal

/-- Decimal digits of a natural number. -/
def natDigits (n : Nat) : List Char := Nat.toDigits 10 n

/-- Drops the zeros at the end of a decimal, keeping its value. -/
def Scientific.dropZeros : Nat → Scientific → Scientific
  | 0, s => s
  | fuel + 1, s =>
    if s.digits != 0 && s.digits % 10 == 0
      then dropZeros fuel ⟨s.digits / 10, s.exponent + 1⟩ else s

/-- An exponent with its sign and at least two digits. -/
def exponentText (e : Int) : List Char :=
  let ds := natDigits e.natAbs
  'e' :: (if e < 0 then '-' else '+') :: (if ds.length < 2 then '0' :: ds else ds)

/-- Digits with a point after the first `k` of them. -/
def pointAfter (k : Nat) (ds : List Char) : List Char :=
  let front := ds.take k ++ List.replicate (k - ds.length) '0'
  let back := ds.drop k
  front ++ '.' :: (if back.isEmpty then ['0'] else back)

/-- Lays a positive decimal out. -/
def Scientific.layout (s : Scientific) : List Char :=
  let s := s.dropZeros 400
  let ds := natDigits s.digits
  let lead : Int := s.exponent + (ds.length : Int) - 1
  if -4 ≤ lead && lead < 16 then
    if lead < 0 then '0' :: '.' :: (List.replicate ((-lead).toNat - 1) '0' ++ ds)
    else pointAfter (lead.toNat + 1) ds
  else
    match ds with
    | [d] => d :: exponentText lead
    | d :: rest => d :: '.' :: (rest ++ exponentText lead)
    | [] => exponentText lead

/-- The text of a number, with given words for not-a-number and infinity. -/
def textWith (notNumber infinity : String) (x : Float) : String :=
  if x.isNaN then notNumber
  else
    match Parts.ofFloat x with
    | none => if x < 0.0 then "-" ++ infinity else infinity
    | some p =>
      let sign := if p.negative then ['-'] else []
      let body := if p.significand == 0 then ['0', '.', '0'] else (shortest p).layout
      String.ofList (sign ++ body)

/-- The text of a number. -/
def text (x : Float) : String := textWith "nan" "inf" x

end Cadence.Decimal
