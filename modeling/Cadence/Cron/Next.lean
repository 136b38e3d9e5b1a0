/-
The next occurrence of a schedule.

* `nextRunAfter` — the first occurrence of an expression strictly after an instant;
* `nextRun` — the first occurrence strictly after a moment.
-/
import Cadence.Cron.Search

namespace Cadence.Cron

open Cadence.Calendar

/-- Why an expression has no next occurrence. -/
inductive NextFault where
  | cron (fault : Fault)
  | range (fault : RangeFault)
  /-- The search starts in the last second of the calendar. -/
  | lastSecond
  | never (expression : String)
  deriving DecidableEq, Repr

/-- The wording of a fault. -/
def NextFault.message : NextFault → String
  | .cron f => f.message
  | .range f => f.message
  | .lastSecond => "list index out of range"
  | .never expression => s!"Cron expression has no future occurrence: {expression}"

/-- The first full second that is not before an instant. -/
def fullSecond (t : Instant) : Except RangeFault Instant :=
  if t.micros % second = 0 then .ok t else t.shift (second - t.micros % second)

/-- The first occurrence of a variant that is not before an instant, if there is one. -/
def Variant.nextFrom (v : Variant) (t : Instant) : Except NextFault (Option Instant) := do
  let start ← (fullSecond t).mapError .range
  match v.search (.ofInstant start) .year with
  | .ok u => pure (some u.toInstant)
  | .error .exhausted => pure none
  | .error .lastSecond => throw .lastSecond

/-- The first occurrence of an expression strictly after an instant: the earliest of those of its
variants. -/
def nextRunAfter (expression : String) (t : Instant) : Except NextFault Instant := do
  let start ← (t.shift 1).mapError .range
  let schedule ← (Schedule.parse expression).mapError .cron
  let times ← schedule.variants.mapM (·.nextFrom start)
  match (times.filterMap id).min? with
  | some next => pure next
  | none => throw (.never expression)

/-- The first occurrence of an expression strictly after a moment. -/
def nextRun (expression : String) (reference : Moment) : Except NextFault Instant := do
  nextRunAfter expression (← reference.toInstant.mapError .range)

end Cadence.Cron
