/-
The fields of a cron expression.

A field is a list of items between commas.  An item allows all values of its field, a range of
them, or, for days, the last day of the month; a step keeps every n-th value of an item.  Months
and days of the week may be given by their English names of three letters.

* `nextValue` — the next value that the items of a field have, between the least and the greatest
  value that the field can take on the date in question;
* `Field.parse` — the items of a field, or what is wrong with its text.
-/
import Cadence.Decimal.Reading
import Cadence.Text.Case

namespace Cadence.Cron

open Cadence.Text

/-- The fields. Days of the week count from Monday, which is 0. -/
inductive Field where
  | minute | hour | day | month | weekday
  deriving DecidableEq, Inhabited, Repr

namespace Field

/-- The name of a field in messages. -/
def name : Field → String
  | .minute => "minute"
  | .hour => "hour"
  | .day => "day"
  | .month => "month"
  | .weekday => "day_of_week"

/-- The least value of a field. -/
def least : Field → Nat
  | .day | .month => 1
  | _ => 0

/-- The greatest value of a field. -/
def greatest : Field → Nat
  | .minute => 59
  | .hour => 23
  | .day => 31
  | .month => 12
  | .weekday => 6

end Field

/-- An item of a field. -/
inductive Item where
  /-- All values, or every n-th of them. -/
  | every (step : Option Nat)
  /-- The values from a first to a last one or to the end, or every n-th of them. -/
  | range (first : Nat) (last step : Option Nat)
  /-- The last day of the month. -/
  | lastDay
  deriving DecidableEq, Inhabited, Repr

/-- The first value on a step counted from a start that is not less than `value`. -/
def stepUp (start value : Nat) : Option Nat → Nat
  | none | some 0 => value
  | some n => value + (((n : Int) - (value - start : Nat)) % n).toNat

/-- A value that is not too great. -/
def upTo (high value : Nat) : Option Nat := if value ≤ high then some value else none

/-- The least value of an item that is not less than `value`, the field running from `low` to
`high`. The last day of a month is never less than the day looked at. -/
def Item.next? (low high value : Nat) : Item → Option Nat
  | .every step => upTo high (stepUp low (max low value) step)
  | .range first last step =>
    let start := max low first
    upTo (min high (last.getD high)) (stepUp start (max start value) step)
  | .lastDay => some high

/-- The least value that one of the items of a field has, from a value on. -/
def nextValue (low high value : Nat) (items : List Item) : Option Nat :=
  (items.filterMap (Item.next? low high value)).min?

/-- What may be wrong with a cron expression. -/
inductive Fault where
  | fieldCount (count : Nat)
  | weekdayNumber (token : String)
  | weekdayName (token : String)
  | weekdayStep (part : String)
  | weekdayRange (base : String)
  | integer (fault : Decimal.IntegerFault)
  | zeroStep
  | reversed
  | unknownMonth (name : String)
  | unknownDay (name : String)
  | stepTooLarge (item : String) (step : Nat) (range : Int)
  | firstTooLow (item : String) (first least : Nat)
  | lastTooHigh (item : String) (last greatest : Nat)
  | unrecognized (item field : String)
  deriving DecidableEq, Repr

/-- The wording of a fault. -/
def Fault.message : Fault → String
  | .fieldCount n => s!"Wrong number of fields; got {n}, expected 5"
  | .weekdayNumber t => s!"Weekday out of range: {t}"
  | .weekdayName t => s!"Unrecognised weekday: {t}"
  | .weekdayStep p => s!"Invalid step in weekday field: {p}"
  | .weekdayRange b => s!"Invalid weekday range: {b}"
  | .integer f => f.message
  | .zeroStep => "Increment must be higher than 0"
  | .reversed => "The minimum value in a range must not be higher than the maximum"
  | .unknownMonth n => s!"Invalid month name \"{n}\""
  | .unknownDay n => s!"Invalid weekday name \"{n}\""
  | .stepTooLarge item step range =>
    s!"Error validating expression {quoted item}: the step value ({step}) is higher than the " ++
      s!"total range of the expression ({range})"
  | .firstTooLow item first least =>
    s!"Error validating expression {quoted item}: the first value ({first}) is lower than the " ++
      s!"minimum value ({least})"
  | .lastTooHigh item last greatest =>
    s!"Error validating expression {quoted item}: the last value ({last}) is higher than the " ++
      s!"maximum value ({greatest})"
  | .unrecognized item field => s!"Unrecognized expression \"{item}\" for field \"{field}\""

/-- The months by their short names. -/
def monthNames : List String :=
  ["jan", "feb", "mar", "apr", "may", "jun", "jul", "aug", "sep", "oct", "nov", "dec"]

/-- The days of the week by their short names. -/
def dayNames : List String := ["mon", "tue", "wed", "thu", "fri", "sat", "sun"]

/-- The position of a text in a list. -/
def position? (s : String) (l : List String) : Option Nat :=
  if l.contains s then some (l.idxOf s) else none

/-- Whether a character is a letter of a name, in either case; the characters outside ASCII are
those that fold to a letter of it. -/
def isNameChar (c : Char) : Bool :=
  ('a' ≤ c && c ≤ 'z') || ('A' ≤ c && c ≤ 'Z') || c == 'İ' || c == 'ı' || c == 'ſ' || c == 'K'

/-- Reads digits that take up all the characters. -/
def number (ds : List Char) : Except Fault Nat :=
  match Decimal.integer? (String.ofList ds) with
  | .ok n => .ok n.toNat
  | .error f => .error (.integer f)

/-- Reads a number that may be absent. -/
def number? : Option (List Char) → Except Fault (Option Nat)
  | none => .ok none
  | some ds => (number ds).map some

/-- Cuts an item into its body and the digits of its step. `none` if what follows the slash is not a
row of digits. -/
def stepDigits? (cs : List Char) : Option (List Char × Option (List Char)) :=
  match cutAt '/' cs with
  | (body, none) => some (body, none)
  | (body, some ds) => if !ds.isEmpty && ds.all isDecimalDigit then some (body, some ds) else none

/-- A step that is not zero. -/
def checkStep (step : Option Nat) : Except Fault Unit :=
  if step == some 0 then .error .zeroStep else .ok ()

/-- A step that the whole range of the field has room for. -/
def checkStepWithin (item : String) (range : Int) (step : Option Nat) : Except Fault Unit :=
  match step with
  | none => .ok ()
  | some n => if range < n then .error (.stepTooLarge item n range) else .ok ()

/-- Checks a range against the bounds of its field. A last value of zero counts as none where the
room for the step is measured. -/
def checkRange (field : Field) (item : String) (first : Nat) (last step : Option Nat) :
    Except Fault Item := do
  checkStepWithin item ((field.greatest : Int) - field.least) step
  if first < field.least then throw (.firstTooLow item first field.least)
  if let some l := last then
    if field.greatest < l then throw (.lastTooHigh item l field.greatest)
  let room := match last with
    | none | some 0 => field.greatest
    | some l => l
  checkStepWithin item ((room : Int) - first) step
  pure (.range first last step)

/-- A range from its bounds and step, as far as its text goes. -/
def makeRange (field : Field) (item : String) (first : Nat) (last step : Option Nat) :
    Except Fault Item := do
  let last := if last.isNone && step.isNone then some first else last
  if let some l := last then
    if l < first then throw .reversed
  checkRange field item first last step

/-- An item of numbers: `a`, `a-b`, `a/n` or `a-b/n`. `none` for other forms. -/
def parseNumbers (field : Field) (item : String) : Option (Except Fault Item) := do
  let (body, step) ← stepDigits? item.toList
  let (first, last) := cutAt '-' body
  let isRow (ds : List Char) : Bool := !ds.isEmpty && ds.all isDecimalDigit
  if isRow first && (last.map isRow).getD true then
    some (do
      let step ← number? step
      checkStep step
      let first ← number first
      let last ← number? last
      makeRange field item first last step)
  else none

/-- An item of all values: `*` or `*/n`. `none` for other forms. -/
def parseEvery (field : Field) (item : String) : Option (Except Fault Item) := do
  let (body, step) ← stepDigits? item.toList
  if body == ['*'] then
    some (do
      let step ← number? step
      checkStep step
      checkStepWithin item ((field.greatest : Int) - field.least) step
      pure (.every step))
  else none

/-- An item that begins with a name or a range of names; whatever follows is passed over. -/
def parseNames (field : Field) (names : List String) (unknown : String → Fault) (item : String) :
    Option (Except Fault Item) :=
  let cs := item.toList
  let first := cs.takeWhile isNameChar
  let last :=
    match cs.dropWhile isNameChar with
    | '-' :: rest => rest.takeWhile isNameChar
    | _ => []
  if first.isEmpty then none
  else
    let lookUp (name : List Char) : Except Fault Nat :=
      match position? (lower (String.ofList name)) names with
      | some i => .ok (i + field.least)
      | none => .error (unknown (String.ofList name))
    some (do
      let first ← lookUp first
      let last ← if last.isEmpty then pure none else (lookUp last).map some
      makeRange field item first last none)

/-- Whether an item begins with the word for the last day, in any letter case. -/
def namesLastDay (item : String) : Bool :=
  match item.toList with
  | l :: a :: s :: t :: _ =>
    (l == 'l' || l == 'L') && (a == 'a' || a == 'A') && (s == 's' || s == 'S' || s == 'ſ') &&
      (t == 't' || t == 'T')
  | _ => false

/-- An item in one of the forms that only some fields have. -/
def parseSpecial (field : Field) (item : String) : Option (Except Fault Item) :=
  match field with
  | .day => if namesLastDay item then some (.ok .lastDay) else none
  | .month => parseNames .month monthNames .unknownMonth item
  | .weekday => parseNames .weekday dayNames .unknownDay item
  | _ => none

/-- Reads an item of a field. -/
def Item.parse (field : Field) (item : String) : Except Fault Item :=
  ((parseEvery field item).orElse fun _ =>
    (parseNumbers field item).orElse fun _ => parseSpecial field item).getD
      (.error (.unrecognized item field.name))

/-- Reads the items of a field. -/
def Field.parse (field : Field) (text : String) : Except Fault (List Item) :=
  (splitOn ',' text).mapM (Item.parse field)

end Cadence.Cron
