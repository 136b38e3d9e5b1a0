/-
Schedules: cron expressions of five fields, and the minutes at which they occur.

If both the day of the month and the day of the week are restricted, a day may match either field;
otherwise it has to match both.  The former kind of expression has two variants, each with one of
the fields left open.

* `Schedule.parse` — the schedule of an expression.
-/
import Cadence.Cron.Weekday
import Cadence.Calendar.Date

namespace Cadence.Cron

open Cadence.Text Cadence.Calendar

/-- Five fields that all have to match. -/
structure Variant where
  month : List Item
  day : List Item
  weekday : List Item
  hour : List Item
  minute : List Item
  deriving DecidableEq, Inhabited, Repr

/-- A schedule: it occurs when one of its variants does. -/
structure Schedule where
  variants : List Variant
  deriving DecidableEq, Inhabited, Repr

/-- The texts of the five fields of an expression. -/
structure Fields where
  minute : String
  hour : String
  day : String
  month : String
  weekday : String
  deriving DecidableEq, Repr

/-- Reads the fields of a variant, from the months down to the minutes. -/
def Fields.variant (f : Fields) : Except Fault Variant := do
  let month ← Field.month.parse f.month
  let day ← Field.day.parse f.day
  let weekday ← Field.weekday.parse f.weekday
  let hour ← Field.hour.parse f.hour
  let minute ← Field.minute.parse f.minute
  pure ⟨month, day, weekday, hour, minute⟩

/-- Whether a day field leaves some days out on purpose: it begins neither with `*` nor with `?`. -/
def isRestricted (field : String) : Bool :=
  match field.toList with
  | c :: _ => c != '*' && c != '?'
  | [] => true

/-- The fields of an expression. -/
def Fields.split (expression : String) : Except Fault Fields :=
  match words expression with
  | [minute, hour, day, month, weekday] => .ok ⟨minute, hour, day, month, weekday⟩
  | ws => .error (.fieldCount ws.length)

/-- The variants of fields whose weekdays are written in names. -/
def Fields.variants (f : Fields) (eitherDay : Bool) : List Fields :=
  if eitherDay then [⟨f.minute, f.hour, f.day, f.month, "*"⟩,
    ⟨f.minute, f.hour, "*", f.month, f.weekday⟩]
  else [f]

/-- Reads a cron expression. -/
def Schedule.parse (expression : String) : Except Fault Schedule := do
  let f ← Fields.split expression
  let weekday ← translateWeekdays f.weekday
  let variants ← (Fields.variants ⟨f.minute, f.hour, f.day, f.month, weekday⟩
    (isRestricted f.day && isRestricted f.weekday)).mapM Fields.variant
  pure ⟨variants⟩

end Cadence.Cron
