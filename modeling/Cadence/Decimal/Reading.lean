/-
Reading numbers written in decimal.

* `float?` — reads a floating-point number: an optional sign, digits with an optional point and an
  optional exponent, or a word for infinity or not-a-number in any letter case.  Digits of every
  script count, and a single underscore may stand between two digits;
* `integer?` — reads an integer with an optional sign under the same rules for digits;
* `nearest` — the floating-point number nearest to a decimal, infinite beyond the range.

Both readers ignore blanks around the number.
-/
import Cadence.Text.Blank
import Cadence.Text.Digit
import Cadence.Text.Quoted

namespace Cadence.Decimal

open Cadence.Text

/-- The floating-point number nearest to `digits · 10^exponent`. Exponents far out of range are
settled without forming the power of ten. -/
def nearest (digits : Nat) (exponent : Int) : Float :=
  let lead : Int := exponent + ((Nat.toDigits 10 digits).length : Int)
  if digits == 0 then 0.0
  else if 320 < lead then 1.0 / 0.0
  else if lead < -400 then 0.0
  else if 0 ≤ exponent then Float.ofScientific (digits * Nat.pow 10 exponent.toNat) false 0
  else Float.ofScientific digits true (-exponent).toNat

/-- The floating-point number nearest to an integer, infinite beyond the range. -/
def nearestInt (n : Int) : Float :=
  let x := nearest n.natAbs 0
  if n < 0 then -x else x

/-- The value of a row of digits. -/
def digitsValue (ds : List Nat) : Nat := ds.foldl (fun n d => 10 * n + d) 0

/-- Digits with single underscores between them, and the rest. `none` where an underscore is not
followed by a digit. -/
def takeDigits : List Char → Option (List Nat × List Char)
  | [] => some ([], [])
  | c :: '_' :: cs =>
    match digitValue? c, takeDigits cs with
    | none, _ => some ([], c :: '_' :: cs)
    | some d, some (d' :: ds, rest) => some (d :: d' :: ds, rest)
    | some _, _ => none
  | c :: cs =>
    match digitValue? c with
    | none => some ([], c :: cs)
    | some d => (takeDigits cs).map fun (ds, rest) => (d :: ds, rest)

/-- A sign, if there is one: whether it is a minus, and the rest. -/
def takeSign : List Char → Bool × List Char
  | '-' :: cs => (true, cs)
  | '+' :: cs => (false, cs)
  | cs => (false, cs)

/-- An exponent at the end of a number; `some 0` if there is none. -/
def exponent? : List Char → Option Int
  | [] => some 0
  | c :: cs =>
    if c == 'e' || c == 'E' then
      let (negative, cs) := takeSign cs
      match takeDigits cs with
      | some (d :: ds, []) =>
        let n : Int := digitsValue (d :: ds)
        some (if negative then -n else n)
      | _ => none
    else none

/-- A number without its sign. -/
def unsigned? (cs : List Char) : Option Float :=
  match cs.map Char.toLower with
  | ['i', 'n', 'f'] => some (1.0 / 0.0)
  | ['i', 'n', 'f', 'i', 'n', 'i', 't', 'y'] => some (1.0 / 0.0)
  | ['n', 'a', 'n'] => some (0.0 / 0.0)
  | _ =>
    match takeDigits cs with
    | none => none
    | some (whole, '.' :: rest) =>
      match takeDigits rest with
      | none => none
      | some (fraction, rest) =>
        if whole.isEmpty && fraction.isEmpty then none
        else (exponent? rest).map fun e =>
          nearest (digitsValue (whole ++ fraction)) (e - fraction.length)
    | some (whole, rest) =>
      if whole.isEmpty then none
      else (exponent? rest).map fun e => nearest (digitsValue whole) e

/-- Reads a floating-point number. -/
def float? (s : String) : Option Float :=
  let (negative, cs) := takeSign (stripWhile isBlank s.toList)
  (unsigned? cs).map fun x => if negative then -x else x

/-- How many digits an integer may have that is read or written. -/
def maxIntegerDigits : Nat := 4300

/-- What keeps an integer from being read or written. -/
inductive IntegerFault where
  /-- A text that is no integer. -/
  | malformed (text : String)
  /-- A text with too many digits. -/
  | tooLong (digits : Nat)
  /-- An integer that takes too many digits. -/
  | unwritable
  deriving DecidableEq, Repr

/-- How much of a malformed integer is quoted. -/
def maxQuotedChars : Nat := 200

/-- The wording of an integer fault. -/
def IntegerFault.message : IntegerFault → String
  | .malformed s =>
    "invalid literal for int() with base 10: " ++
      String.ofList ((quoted s).toList.take maxQuotedChars)
  | .tooLong n =>
    s!"Exceeds the limit ({maxIntegerDigits} digits) for integer string conversion: " ++
      s!"value has {n} digits; use sys.set_int_max_str_digits() to increase the limit"
  | .unwritable =>
    s!"Exceeds the limit ({maxIntegerDigits} digits) for integer string conversion; " ++
      "use sys.set_int_max_str_digits() to increase the limit"

/-- Reads an integer. -/
def integer? (s : String) : Except IntegerFault Int :=
  let (negative, cs) := takeSign (stripWhile isBlank s.toList)
  match takeDigits cs with
  | some (d :: ds, []) =>
    if maxIntegerDigits < (d :: ds).length then .error (.tooLong (d :: ds).length)
    else
      let n : Int := digitsValue (d :: ds)
      .ok (if negative then -n else n)
  | _ => .error (.malformed s)

end Cadence.Decimal
