/-
Whether a flow is due.

A flow is due when its schedule has an occurrence after its last run and not after now.  A flow that
never ran is treated as if it had run one minute ago, so that it runs at once when its schedule
occurs in the current minute.  An expression that cannot be read is never due; the verdict then
carries the fault, for a warning.

* `isDue` — the verdict for a moment of the last run and an instant;
* `describe` — the next occurrence after a moment, if the expression has one.
-/
import Cadence.Cron.Next

namespace Cadence.Cron

open Cadence.Calendar

/-- How far back a flow that never ran is looked at. -/
def lookback : Int := 60 * second

/-- A verdict: whether a flow is due, and what was wrong with its expression. -/
structure Verdict where
  due : Bool
  fault : Option NextFault
  deriving DecidableEq, Repr

/-- The instant after which an occurrence counts. -/
def reference (lastRun : Option Moment) (now : Instant) : Except RangeFault Instant :=
  match lastRun with
  | none => now.shift (-lookback)
  | some m => m.toInstant

/-- Whether a schedule is due. -/
def isDue (expression : String) (lastRun : Option Moment) (now : Instant) :
    Except RangeFault Verdict := do
  let t ← reference lastRun now
  match nextRunAfter expression t with
  | .ok next => pure ⟨decide (next ≤ now), none⟩
  | .error f => pure ⟨false, some f⟩

/-- The warning for an expression that cannot be used. -/
def warning (expression : String) (fault : NextFault) : String :=
  s!"Invalid cron expression \"{expression}\": {fault.message}"

/-- The next occurrence after a moment, or what is wrong with the expression. -/
def describe (expression : String) (now : Moment) : Except NextFault Instant :=
  nextRun expression now

end Cadence.Cron
