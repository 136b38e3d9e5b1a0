/-
Reading moments in the notations of ISO 8601.

A date is written with year, month and day, or with year, week and optionally the day of the week,
with or without hyphens.  Any one character separates it from the time, which gives hours,
optionally minutes and seconds, with or without colons, and a decimal fraction after a point or
comma of which six digits count.  A distance from universal time may follow, in the same form as
the time after a sign, or as `Z`.

A stray ASCII character directly before the sign of the distance is passed over, and so is whatever
follows the sixth digit of a fraction there.

* `Moment.parse` — the moment that a text writes;
* `Instant.parse` — the instant of a text that may stand between blanks.
-/
import Cadence.Calendar.Moment
import Cadence.Text.Blank
import Cadence.Text.Digit
import Cadence.Text.Quoted

namespace Cadence.Calendar

open Cadence.Text

/-- Why a text is not a moment. -/
inductive MomentFault where
  | malformed (text : String)
  | year (value : Nat)
  | month
  | dayOfMonth
  | hour
  | minute
  | second
  | offset (micros : Int)
  deriving DecidableEq, Repr

/-- A span of time as whole days, seconds of a day and microseconds of a second. -/
def spanText (micros : Int) : String :=
  let days := micros / day
  let seconds := micros % day / second
  let rest := micros % second
  let parts := (if days != 0 then [s!"days={days}"] else []) ++
    (if seconds != 0 then [s!"seconds={seconds}"] else []) ++
    (if rest != 0 then [s!"microseconds={rest}"] else [])
  "datetime.timedelta(" ++ (if parts.isEmpty then "0" else ", ".intercalate parts) ++ ")"

/-- The wording of a fault. -/
def MomentFault.message : MomentFault → String
  | .malformed text => s!"Invalid isoformat string: {quoted text}"
  | .year y => s!"year {y} is out of range"
  | .month => "month must be in 1..12"
  | .dayOfMonth => "day is out of range for month"
  | .hour => "hour must be in 0..23"
  | .minute => "minute must be in 0..59"
  | .second => "second must be in 0..59"
  | .offset micros =>
    "offset must be a timedelta strictly between -timedelta(hours=24) and " ++
      s!"timedelta(hours=24), not {spanText micros}."

/-- Reads exactly `n` ASCII digits: their value and what follows. -/
def digits? (n : Nat) (cs : List Char) : Option (Nat × List Char) :=
  let ds := cs.take n
  if ds.length == n && ds.all isAsciiDigit then
    some (ds.foldl (fun v d => 10 * v + (d.toNat - '0'.toNat)) 0, cs.drop n)
  else none

/-- The character at a place; beyond the end stands the null character. -/
def charAt (cs : List Char) (i : Nat) : Char := cs[i]?.getD '\x00'

/-- The place at which the date ends: where the week notation allows two readings, a hyphen between
date and time is preferred, and digits go to the time in pairs. -/
def datePlace (cs : List Char) : Option Nat :=
  let len := cs.length
  if len == 7 then some 7
  else if charAt cs 4 == '-' then
    if charAt cs 5 == 'W' then
      if len < 8 then none
      else if 8 < len && charAt cs 8 == '-' then
        if len == 9 then none
        else if 10 < len && isAsciiDigit (charAt cs 10) then some 8
        else some 10
      else some 8
    else some 10
  else if charAt cs 4 == 'W' then
    let place := 7 + ((cs.drop 7).takeWhile isAsciiDigit).length
    if place < 9 then some place else if place % 2 == 0 then some 7 else some 8
  else some 8

/-- The day number of the Monday of the first week of a year: the week that holds the first
Thursday. -/
def firstMonday (y : Nat) : Int :=
  let first : Int := daysBeforeYear y
  let monday := first - first % 7
  if first % 7 > 3 then monday + 7 else monday

/-- Whether a year has 53 weeks: it begins on a Thursday, or is a leap year beginning on a
Wednesday. -/
def isLongYear (y : Nat) : Bool :=
  let first := daysBeforeYear y % 7
  first == 3 || (first == 2 && isLeap y)

/-- The date of a day of a week, if week and day exist. The weeks of the year 0 lie before the first
month of the calendar. -/
def weekDate? (y week weekday : Nat) : Option Date :=
  if week == 0 || 53 < week || (week == 53 && !isLongYear y) then none
  else if weekday == 0 || 7 < weekday then none
  else
    some (if y == 0 then ⟨1, 0, 1⟩
      else Date.ofDayNumber (firstMonday y + ((week : Int) - 1) * 7 + weekday - 1).toNat)

/-- Reads a date that takes up the first `len` characters. -/
def date? (len : Nat) (cs : List Char) : Option Date := do
  let (y, rest) ← digits? 4 cs
  let hyphens := charAt rest 0 == '-'
  let rest := if hyphens then rest.drop 1 else rest
  if charAt rest 0 == 'W' then
    let (week, rest) ← digits? 2 (rest.drop 1)
    if cs.length - rest.length < len then
      if hyphens && charAt rest 0 != '-' then none
      else
        let (weekday, _) ← digits? 1 (if hyphens then rest.drop 1 else rest)
        weekDate? y week weekday
    else weekDate? y week 1
  else
    let (m, rest) ← digits? 2 rest
    if hyphens && charAt rest 0 != '-' then none
    else
      let (d, rest) ← digits? 2 (if hyphens then rest.drop 1 else rest)
      if cs.length - rest.length == len then some ⟨y, m, d⟩ else none

/-- Hours, minutes, seconds and microseconds, and whether characters are left over. -/
structure Clock where
  hour : Nat
  minute : Nat
  second : Nat
  micros : Nat
  leftOver : Bool
  deriving DecidableEq, Repr

/-- Reads a fraction of a second: at most six digits count, further digits are passed over. -/
def fraction? (next : Char) (cs : List Char) : Option (Nat × Bool) := do
  let n := min 6 cs.length
  let (v, rest) ← digits? n cs
  let rest := rest.dropWhile isAsciiDigit
  pure (v * Nat.pow 10 (6 - n), rest.headD next != '\x00')

/-- Reads the remaining fields of a time, given those read so far and whether colons are used.
`next` is the character after the time. -/
def clockFields (colons : Bool) (next : Char) :
    Nat → List Nat → List Char → Option (List Nat × Nat × Bool)
  | 0, fields, cs => (fraction? next cs).map fun (v, more) => (fields, v, more)
  | n + 1, fields, cs => do
    let (v, rest) ← digits? 2 cs
    let fields := fields ++ [v]
    let c := rest.headD next
    let colons := if fields.length == 1 then c == ':' else colons
    if rest.isEmpty || (rest.length == 1 && c.toNat < 0x80) then pure (fields, 0, c != '\x00')
    else if colons && c == ':' then clockFields colons next n fields (rest.drop 1)
    else if c == '.' || c == ',' then
      (fraction? next (rest.drop 1)).map fun (v, more) => (fields, v, more)
    else if !colons then clockFields colons next n fields rest
    else none

/-- Reads a time that takes up all the characters. -/
def clock? (next : Char) (cs : List Char) : Option Clock := do
  let (fields, micros, more) ← clockFields true next 3 [] cs
  pure ⟨fields.getD 0 0, fields.getD 1 0, fields.getD 2 0, micros, more⟩

/-- Whether a character begins a distance from universal time. -/
def beginsOffset (c : Char) : Bool := c == '+' || c == '-' || c == 'Z'

/-- The microseconds of a time of day or of a distance. -/
def Clock.total (c : Clock) : Int :=
  (c.hour : Int) * Calendar.hour + (c.minute : Int) * Calendar.minute +
    (c.second : Int) * Calendar.second + c.micros

/-- Reads a time and, if one follows, the distance from universal time in microseconds. -/
def timeAndOffset? (cs : List Char) : Option (Clock × Option Int) := do
  let time := cs.takeWhile (!beginsOffset ·)
  match cs.dropWhile (!beginsOffset ·) with
  | [] =>
    let c ← clock? '\x00' time
    if c.leftOver then none else pure (c, none)
  | sign :: rest =>
    let c ← clock? sign time
    if sign == 'Z' then if rest.isEmpty then pure (c, some 0) else none
    else
      let o ← clock? '\x00' rest
      if o.leftOver then none
      else
        -- a distance below one second counts as none
        let total := if o.total < second then 0 else o.total
        pure (c, some (if sign == '-' then -total else total))

/-- Checks the ranges of a date and a time and puts them together. -/
def assemble (d : Date) (c : Clock) (offset : Option Int) : Except MomentFault Moment :=
  if offset.any fun o => o ≤ -day || day ≤ o then .error (.offset (offset.getD 0))
  else if d.year == 0 || maxYear < d.year then .error (.year d.year)
  else if d.month == 0 || 12 < d.month then .error .month
  else if d.day == 0 || daysInMonth d.year d.month < d.day then .error .dayOfMonth
  else if 23 < c.hour then .error .hour
  else if 59 < c.minute then .error .minute
  else if 59 < c.second then .error .second
  else .ok ⟨(dayNumber d : Int) * day + c.total, offset⟩

/-- The parts of a text that writes a moment. -/
def momentParts? (cs : List Char) : Option (Date × Clock × Option Int) :=
  if cs.length < 7 then none
  else do
    let place ← datePlace cs
    let d ← date? place cs
    if cs.length ≤ place then
      pure (d, ⟨0, 0, 0, 0, false⟩, none)
    else
      let (c, offset) ← timeAndOffset? (cs.drop (place + 1))
      pure (d, c, offset)

/-- The moment that a text writes. -/
def Moment.parse (s : String) : Except MomentFault Moment :=
  match momentParts? s.toList with
  | none => .error (.malformed s)
  | some (d, c, offset) => assemble d c offset

/-- Why a text gives no instant. -/
inductive InstantFault where
  | moment (fault : MomentFault)
  | range (fault : RangeFault)
  deriving DecidableEq, Repr

/-- A final `Z` written as a distance of zero. -/
def spellZulu (cs : List Char) : List Char :=
  if cs.getLast? == some 'Z' then cs.dropLast ++ ['+', '0', '0', ':', '0', '0'] else cs

/-- The instant of a text that may stand between blanks. -/
def Instant.parse (s : String) : Except InstantFault Instant := do
  let m ← (Moment.parse (String.ofList (spellZulu (stripWhile isBlank s.toList)))).mapError .moment
  m.toInstant.mapError .range

end Cadence.Calendar
