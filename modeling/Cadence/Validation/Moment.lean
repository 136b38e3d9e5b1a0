/-
Reading moments out of documents.

A moment is written as a date and a time of day with an optional distance from universal
time; a date alone stands for its first minute.  A number counts seconds since the beginning
of 1970, or milliseconds if it is too large for that.

* `moment` — the reader.
-/
import Cadence.Validation.Scalar

namespace Cadence.Validation

open Cadence.Calendar Cadence.Text

/-- What is wrong with a date. -/
inductive DateFlaw where
  | tooShort | year | separator | month | day | monthRange | dayRange | extra
  deriving DecidableEq, Repr

/-- A flaw in words. -/
def DateFlaw.message : DateFlaw → String
  | .tooShort => "input is too short"
  | .year => "invalid character in year"
  | .separator => "invalid date separator, expected \x60-\x60"
  | .month => "invalid character in month"
  | .day => "invalid character in day"
  | .monthRange => "month value is outside expected range of 1-12"
  | .dayRange => "day value is outside expected range"
  | .extra => "unexpected extra characters at the end of the input"

/-- Reads a number of ASCII digits. -/
def digitsOr (flaw : DateFlaw) (n : Nat) (cs : List Char) : Except DateFlaw (Nat × List Char) :=
  let ds := cs.take n
  if ds.length = n && ds.all isAsciiDigit then
    .ok (ds.foldl (fun v d => 10 * v + (d.toNat - '0'.toNat)) 0, cs.drop n)
  else .error flaw

/-- Reads a hyphen. -/
def hyphen (cs : List Char) : Except DateFlaw (List Char) :=
  match cs with
  | '-' :: rest => .ok rest
  | _ => .error .separator

/-- The date at the beginning of a text, and what follows. -/
def leadingDate (s : String) : Except DateFlaw (Date × List Char) := do
  if s.utf8ByteSize < 10 then throw .tooShort
  let (y, rest) ← digitsOr .year 4 s.toList
  let rest ← hyphen rest
  let (m, rest) ← digitsOr .month 2 rest
  let rest ← hyphen rest
  let (d, rest) ← digitsOr .day 2 rest
  if m = 0 || 12 < m then throw .monthRange
  if d = 0 || daysInMonth y m < d then throw .dayRange
  return (⟨y, m, d⟩, rest)

/-- Reads two digits up to a bound. -/
def pairUpTo (bound : Nat) (cs : List Char) : Option (Nat × List Char) :=
  match digitsOr .extra 2 cs with
  | .ok (n, rest) => if n ≤ bound then some (n, rest) else none
  | .error _ => none

/-- A distance from universal time that takes up all the characters. -/
def offsetOf? : List Char → Option (Option Int)
  | [] => some none
  | ['Z'] | ['z'] => some (some 0)
  | c :: rest =>
    if c == '+' || c == '-' || c == '\u2212' then do
      let (h, rest) ← pairUpTo 23 rest
      let rest := match rest with
        | ':' :: rest => rest
        | rest => rest
      let (m, rest) ← pairUpTo 59 rest
      let micros : Int := (h : Int) * hour + (m : Int) * minute
      if rest.isEmpty then some (some (if c == '+' then micros else -micros)) else none
    else none

/-- A time of day and a distance from universal time that take up all the characters. -/
def timeOf? (cs : List Char) : Option (Int × Option Int) := do
  let (h, rest) ← pairUpTo 23 cs
  let ':' :: rest := rest | none
  let (m, rest) ← pairUpTo 59 rest
  let base : Int := (h : Int) * hour + (m : Int) * minute
  match rest with
  | ':' :: rest =>
    let (s, rest) ← pairUpTo 59 rest
    match rest with
    | '.' :: rest =>
      let ds := rest.takeWhile isAsciiDigit
      if ds.isEmpty then none
      else
        let six := (ds ++ List.replicate 6 '0').take 6
        let fraction := six.foldl (fun v d => 10 * v + (d.toNat - '0'.toNat)) 0
        let offset ← offsetOf? (rest.dropWhile isAsciiDigit)
        pure (base + (s : Int) * second + fraction, offset)
    | rest => pure (base + (s : Int) * second, ← offsetOf? rest)
  | rest => pure (base, ← offsetOf? rest)

/-- The seconds between the beginning of the calendar and the beginning of 1970. -/
def secondsBefore1970 : Int := 62135596800

/-- The moment that a number of microseconds since 1970 stands for. -/
def momentSince1970 (micros : Int) : Checked Moment :=
  if micros < -11676096000 * second then
    Checked.fail (.unreadableMoment "dates before 1600 are not supported as unix timestamps")
  else if 253402300799 * second < micros then
    Checked.fail (.unreadableMoment "dates after 9999 are not supported as unix timestamps")
  else .ok ⟨micros + secondsBefore1970 * second, some 0⟩

/-- The largest number that counts seconds. -/
def maxSeconds : Nat := 20000000000

/-- The moment that a number stands for, given its whole part and microseconds beyond it. -/
def momentOfParts (n : Int) (micros : Nat) : Checked Moment :=
  momentSince1970 ((if n.natAbs ≤ maxSeconds then n * second else n * 1000) + micros)

/-- The moment that an integer stands for. -/
def momentOfInteger (n : Int) : Checked Moment := momentOfParts n 0

/-- The moment that a floating-point number stands for, to the nearest microsecond. -/
def momentOfFloat (x : Float) : Checked Moment :=
  if x.isNaN || x.isInf then Checked.fail (.unreadableMoment "NaN values not permitted")
  else
    let whole := if x < 0.0 then x.ceil else x.floor
    momentOfParts (wholeValue x.floor) (((x - whole).abs * 1000000.0).round.toUInt64.toNat)

/-- The moment that a text writes. -/
def momentOfText (s : String) : Checked Moment :=
  match leadingDate s with
  | .ok (d, rest) =>
    let midnight : Int := (dayNumber d : Int) * day
    match rest with
    | [] => .ok ⟨midnight, none⟩
    | c :: rest =>
      match if ['T', 't', ' ', '_'].contains c then timeOf? rest else none with
      | some (time, offset) => .ok ⟨midnight + time, offset⟩
      | none => Checked.fail (.unreadableMoment DateFlaw.extra.message)
  | .error flaw =>
    let (negative, cs) := takeSign s.toList
    match cutAt '.' cs with
    | (whole, fraction) =>
      if whole.isEmpty || !(whole ++ fraction.getD []).all isAsciiDigit then
        Checked.fail (.unreadableMoment flaw.message)
      else if fraction.isSome then momentOfFloat ((Decimal.float? s).getD 0.0)
      else
        let n : Int := Decimal.digitsValue (whole.filterMap digitValue?)
        momentOfInteger (if negative then -n else n)
where
  /-- A sign, if there is one, and whether it is a minus. -/
  takeSign : List Char → Bool × List Char
    | '-' :: cs => (true, cs)
    | '+' :: cs => (false, cs)
    | cs => (false, cs)

/-- A moment. -/
def moment : Document → Checked Moment
  | .moment m => .ok m
  | .date d => .ok ⟨(dayNumber d : Int) * day, none⟩
  | .int n => momentOfInteger n
  | .float x => momentOfFloat x
  | .str s => momentOfText s
  | _ => Checked.fail .notMoment

end Cadence.Validation
