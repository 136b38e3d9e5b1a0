/-
Instants, and moments as people write them.

An instant is a number of microseconds since the beginning of the year 1 in universal time.  A
moment is what a wall clock shows, together with the distance of that clock from universal time if
it is known.

* `Moment.toInstant` — the instant of a moment; a clock of unknown distance is taken to show
  universal time, and a moment whose instant lies outside the years 1 to 9999 has none;
* `Moment.isoText` — the moment in the extended ISO 8601 notation.
-/
import Cadence.Calendar.Date
import Cadence.Decimal.Notation

namespace Cadence.Calendar

/-- Microseconds of a second. -/
def second : Int := 1000000

/-- Microseconds of a minute. -/
def minute : Int := 60 * second

/-- Microseconds of an hour. -/
def hour : Int := 60 * minute

/-- Microseconds of a day. -/
def day : Int := 24 * hour

/-- A number of seconds in microseconds, a half counting as one. -/
def secondsMicros (x : Float) : Int :=
  let micros := (x * 1000000.0).abs + 0.5
  if x < 0.0 then -(micros.floor.toUInt64.toNat : Int) else micros.floor.toUInt64.toNat

/-- A point in time: microseconds since the beginning of the year 1 in universal time. -/
structure Instant where
  micros : Int
  deriving DecidableEq, Inhabited, Repr

/-- The number of microseconds of the calendar. -/
def calendarMicros : Int := dayCount * day

/-- Whether a number of microseconds lies within the years 1 to 9999. -/
def inCalendar (micros : Int) : Bool := 0 ≤ micros && micros < calendarMicros

/-- The instant a number of microseconds later. -/
def Instant.after (t : Instant) (micros : Int) : Instant := ⟨t.micros + micros⟩

instance : LE Instant := ⟨fun a b => a.micros ≤ b.micros⟩
instance : LT Instant := ⟨fun a b => a.micros < b.micros⟩
instance (a b : Instant) : Decidable (a ≤ b) := inferInstanceAs (Decidable (a.micros ≤ b.micros))
instance (a b : Instant) : Decidable (a < b) := inferInstanceAs (Decidable (a.micros < b.micros))
instance : Min Instant := minOfLe

/-- What a wall clock shows, in microseconds since the beginning of the year 1, and how far it is
ahead of universal time, if that is known. -/
structure Moment where
  wall : Int
  offset : Option Int
  deriving DecidableEq, Inhabited, Repr

/-- A moment whose instant lies outside the calendar. -/
inductive RangeFault where
  | outOfRange
  deriving DecidableEq, Repr

/-- The wording of a range fault. -/
def RangeFault.message : RangeFault → String
  | .outOfRange => "date value out of range"

/-- An instant as universal time shows it. -/
def Instant.toMoment (t : Instant) : Moment := ⟨t.micros, some 0⟩

/-- The instant of a moment. -/
def Moment.toInstant (m : Moment) : Except RangeFault Instant :=
  match m.offset with
  | none => .ok ⟨m.wall⟩
  | some offset =>
    if inCalendar (m.wall - offset) then .ok ⟨m.wall - offset⟩ else .error .outOfRange

/-- Moves an instant, within the calendar. -/
def Instant.shift (t : Instant) (micros : Int) : Except RangeFault Instant :=
  if inCalendar (t.micros + micros) then .ok ⟨t.micros + micros⟩ else .error .outOfRange

/-- A number in at least `width` digits. -/
def padded (width n : Nat) : List Char :=
  let ds := Decimal.natDigits n
  List.replicate (width - ds.length) '0' ++ ds

/-- A sign-less distance from universal time: hours and minutes, seconds and their fraction only
where they are not zero. -/
def offsetChars (micros : Nat) : List Char :=
  let seconds := micros / 1000000
  let fraction := micros % 1000000
  let base := padded 2 (seconds / 3600) ++ ':' :: padded 2 (seconds / 60 % 60)
  if fraction != 0 then base ++ ':' :: (padded 2 (seconds % 60) ++ '.' :: padded 6 fraction)
  else if seconds % 60 != 0 then base ++ ':' :: padded 2 (seconds % 60)
  else base

/-- The date and time that a clock shows; microseconds only where they are not zero. -/
def wallChars (wall : Nat) : List Char :=
  let d := Date.ofDayNumber (wall / 86400000000)
  let seconds := wall / 1000000 % 86400
  let fraction := wall % 1000000
  let base := padded 4 d.year ++ '-' :: (padded 2 d.month ++ '-' :: (padded 2 d.day ++
    'T' :: (padded 2 (seconds / 3600) ++ ':' :: (padded 2 (seconds / 60 % 60) ++
      ':' :: padded 2 (seconds % 60)))))
  if fraction != 0 then base ++ '.' :: padded 6 fraction else base

/-- The extended ISO 8601 notation of a moment, as characters. -/
def Moment.isoChars (m : Moment) : List Char :=
  match m.offset with
  | none => wallChars m.wall.toNat
  | some offset =>
    wallChars m.wall.toNat ++ (if offset < 0 then '-' else '+') :: offsetChars offset.natAbs

/-- The extended ISO 8601 notation of a moment. -/
def Moment.isoText (m : Moment) : String := String.ofList m.isoChars

/-- The extended ISO 8601 notation of an instant, in universal time. -/
def Instant.isoText (t : Instant) : String := t.toMoment.isoText

end Cadence.Calendar
