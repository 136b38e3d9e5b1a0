/-
Durations written as a whole number and a unit.

A duration is a row of decimal digits of any script followed by `ms`, `s`, `m` or `h`, with blanks
allowed around it.

* `Duration.parse` — the number of milliseconds, or why the text is not a duration.
-/
import Cadence.Decimal.Reading

namespace Cadence.Duration

open Cadence.Text

/-- Why a text is not a duration: its form is wrong, or its number has too many digits. -/
inductive Fault where
  | malformed (text : String)
  | tooLong (digits : Nat)
  deriving DecidableEq, Repr

/-- The milliseconds of a unit. -/
def unit? : List Char → Option Nat
  | ['m', 's'] => some 1
  | ['s'] => some 1000
  | ['m'] => some 60000
  | ['h'] => some 3600000
  | _ => none

/-- The number and the unit of a duration without blanks around it. -/
def split? (cs : List Char) : Option (List Nat × Nat) :=
  let digits := cs.takeWhile isDecimalDigit
  if digits.isEmpty then none
  else (unit? (cs.dropWhile isDecimalDigit)).map fun u => (digits.filterMap digitValue?, u)

/-- The milliseconds that a text stands for. -/
def parse (s : String) : Except Fault Nat :=
  match split? (stripWhile isBlank s.toList) with
  | none => .error (.malformed s)
  | some (digits, unit) =>
    if Decimal.maxIntegerDigits < digits.length then .error (.tooLong digits.length)
    else .ok (Decimal.digitsValue digits * unit)

end Cadence.Duration
