/-
Numbers and points in time in YAML scalars.

Low lines inside a number mean nothing.  A number may be written to another base: binary,
hexadecimal or, with a leading zero, octal; parts between colons count to the base sixty.

* `integer`, `number` — the number that a scalar writes;
* `pointInTime` — the date or moment that a scalar writes.
-/
import Cadence.Document
import Cadence.Calendar.Iso
import Cadence.Decimal.Reading
import Cadence.Yaml.Tag

namespace Cadence.Yaml

open Cadence.Text Cadence.Calendar

/-- A sign, which an empty scalar does not even lack: whether it is a minus, and the rest
without low lines. -/
def signed (s : String) : Except Fault (Bool × List Char) :=
  match s.toList.filter (· != '_') with
  | [] => .error .empty
  | '-' :: cs => .ok (true, cs)
  | '+' :: cs => .ok (false, cs)
  | cs => .ok (false, cs)

/-- The value of a digit, letters following nine. -/
def extendedDigit? (c : Char) : Option Nat :=
  if 'a' ≤ c && c ≤ 'z' then some (c.toNat - 87)
  else if 'A' ≤ c && c ≤ 'Z' then some (c.toNat - 55)
  else digitValue? c

/-- The digits after the letter that names their base. -/
def dropBase (letter : Char) : List Char → List Char
  | '0' :: c :: cs => if c.toLower = letter then cs else '0' :: c :: cs
  | cs => cs

/-- An integer to a base that a letter names. -/
def integerTo (base : Nat) (letter : Char) (cs : List Char) : Except Fault Int :=
  let (negative, ds) := Decimal.takeSign (stripWhile isBlank cs)
  match (dropBase letter ds).mapM extendedDigit? with
  | some (d :: ds) =>
    if (d :: ds).all (· < base) then
      let n : Int := ((d :: ds).foldl (fun n d => base * n + d) 0 : Nat)
      .ok (if negative then -n else n)
    else malformed
  | _ => malformed
where
  malformed : Except Fault Int :=
    .error (.value s!"invalid literal for int() with base {base}: {Text.quoted (String.ofList cs)}")

/-- An integer to the base ten. -/
def decimalInteger (cs : List Char) : Except Fault Int :=
  (Decimal.integer? (String.ofList cs)).mapError fun f => .value f.message

/-- The integer without its sign. -/
def magnitude (cs : List Char) : Except Fault Int :=
  match cs with
  | [] => .error .empty
  | ['0'] => .ok 0
  | '0' :: 'b' :: ds => integerTo 2 'b' ds
  | '0' :: 'x' :: ds => integerTo 16 'x' ds
  | '0' :: _ => integerTo 8 'o' cs
  | _ =>
    if cs.contains ':' then
      ((splitChars ':' cs).mapM decimalInteger).map fun parts =>
        parts.foldl (fun n d => 60 * n + d) 0
    else decimalInteger cs

/-- The integer that a scalar writes. -/
def integer (s : String) : Except Fault Int := do
  let (negative, cs) ← signed s
  let n ← magnitude cs
  pure (if negative then -n else n)

/-- A floating-point number to the base ten. -/
def decimalNumber (cs : List Char) : Except Fault Float :=
  let s := String.ofList cs
  match Decimal.float? s with
  | some x => .ok x
  | none => .error (.value s!"could not convert string to float: {Text.quoted s}")

/-- The sum of parts, the last first, each counting sixty times as much as the one before. -/
def sexagesimalSum (unit : Nat) (sum : Float) : List Float → Float
  | [] => sum
  | x :: xs => sexagesimalSum (60 * unit) (sum + x * Decimal.nearestInt unit) xs

/-- The floating-point number that a scalar writes. -/
def number (s : String) : Except Fault Float := do
  let (negative, cs) ← signed (String.ofList (s.toList.map Char.toLower))
  if cs == ['.', 'n', 'a', 'n'] then return 0.0 / 0.0
  let x ←
    if cs == ['.', 'i', 'n', 'f'] then pure (1.0 / 0.0)
    else if cs.contains ':' then
      ((splitChars ':' cs).mapM decimalNumber).map fun parts => sexagesimalSum 1 0.0 parts.reverse
    else decimalNumber cs
  return if negative then -x else x

/-- The value of ASCII digits. -/
def digitsNumber (cs : List Char) : Nat := Decimal.digitsValue (cs.filterMap digitValue?)

/-- The microseconds that a fraction of a second writes: six digits count. -/
def fractionMicros (cs : List Char) : Nat :=
  digitsNumber (cs.take 6) * Nat.pow 10 (6 - (cs.take 6).length)

/-- The distance from universal time in microseconds. -/
def offsetMicros (o : Bool × List Char × List Char) : Int :=
  let micros := (digitsNumber o.2.1 : Int) * hour + (digitsNumber o.2.2 : Int) * minute
  if o.1 then -micros else micros

/-- The date or moment of the parts of a point in time. -/
def Timestamp.document (t : Timestamp) : Except Fault Document :=
  let d : Date := ⟨digitsNumber t.year, digitsNumber t.month, digitsNumber t.day⟩
  let result : Except MomentFault Document :=
    match t.clock with
    | none => (assemble d ⟨0, 0, 0, 0, false⟩ none).map fun _ => .date d
    | some (h, m, s, fraction) =>
      (assemble d ⟨digitsNumber h, digitsNumber m, digitsNumber s, fractionMicros fraction, false⟩
        (t.offset.map offsetMicros)).map .moment
  result.mapError fun f => .value f.message

/-- The date or moment that a scalar writes. -/
def pointInTime (s : String) : Except Fault Document :=
  match timestamp? s.toList with
  | some t => t.document
  | none => .error .time

end Cadence.Yaml
