/-
Days of the week as crontab writes them.

Crontab counts the days from Sunday, which is both 0 and 7, while the fields of this library count
from Monday.  A weekday field that contains a digit is therefore taken apart here and written again
as a list of names; a field without digits is left as it is, in lower case.

* `weekdaySet` — the days of a crontab field, Sunday being 0, in increasing order;
* `translateWeekdays` — the field in names.
-/
import Cadence.Cron.Field

namespace Cadence.Cron

open Cadence.Text

/-- The days of the week by their short names, in the order of crontab. -/
def crontabDays : List String := ["sun", "mon", "tue", "wed", "thu", "fri", "sat"]

/-- The number of a day given by number or by a name of which the first three letters count. -/
def weekdayNumber (token : List Char) : Except Fault Nat :=
  let token := lower (trim (String.ofList token))
  let cs := token.toList
  if !cs.isEmpty && cs.all isDigitSign then
    match Decimal.integer? token with
    | .ok n => if 7 < n then .error (.weekdayNumber token) else .ok n.toNat
    | .error f => .error (.integer f)
  else
    match position? (String.ofList (cs.take 3)) crontabDays with
    | some i => .ok i
    | none => .error (.weekdayName token)

/-- The step of a part, one if it has none. -/
def dayStep (part : List Char) : Option (List Char) → Except Fault Nat
  | none | some [] => .ok 1
  | some text =>
    match Decimal.integer? (String.ofList text) with
    | .ok n => if n ≤ 0 then .error (.weekdayStep (String.ofList part)) else .ok n.toNat
    | .error f => .error (.integer f)

/-- The bounds of a part: all days, a range whose end on Sunday may close the week, or a single
day, which runs to Saturday if a step follows. -/
def dayBounds (base : List Char) (stepped : Bool) : Except Fault (Nat × Nat) :=
  if base == ['*'] then .ok (0, 6)
  else
    match cutAt '-' base with
    | (first, some last) => do
      let first ← weekdayNumber first
      let last ← weekdayNumber last
      pure (first, if last == 0 && 0 < first then 7 else last)
    | (day, none) => do
      let day ← weekdayNumber day
      pure (day, if stepped then 6 else day)

/-- The days of a part of a weekday field, modulo the week. -/
def partDays (part : List Char) : Except Fault (List Nat) := do
  let (base, stepText) := cutAt '/' part
  let step ← dayStep part stepText
  let stepped := (stepText.map (!·.isEmpty)).getD false
  let (first, last) ← dayBounds base stepped
  if last < first then throw (.weekdayRange (String.ofList base))
  pure (((List.range (last - first + 1)).filter (· % step == 0)).map fun i => (first + i) % 7)

/-- The days of a weekday field, Sunday being 0, in increasing order. -/
def weekdaySet (field : List Char) : Except Fault (List Nat) := do
  let parts ← (splitChars ',' field).mapM partDays
  pure ((List.range 7).filter parts.flatten.contains)

/-- A crontab weekday field in names. -/
def translateWeekdays (field : String) : Except Fault String :=
  if field == "*" || field == "?" then .ok "*"
  else if field.toList.any isDigitSign then
    (weekdaySet field.toList).map fun days => ",".intercalate (days.map (crontabDays.getD · ""))
  else .ok (lower field)

end Cadence.Cron
