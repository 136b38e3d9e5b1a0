/-
Which stored flows are due.

* `StoredFlow.judge` — whether a flow is to be run at an instant, and what is wrong with its
  schedule;
* `judgeAll` — the flows of a list that are to be run.
-/
import Cadence.Cron.Due
import Cadence.Flow.Basic

namespace Cadence

open Calendar

/-- Whether a flow is to be run: it is enabled, has a schedule, and the schedule is due. -/
def StoredFlow.judge (f : StoredFlow) (now : Instant) : Except RangeFault Cron.Verdict :=
  if f.definition.enabled && !Text.isAllBlank f.definition.schedule then
    Cron.isDue f.definition.schedule f.lastRunAt now
  else .ok ⟨false, none⟩

/-- The warning that a verdict on a flow gives cause to. -/
def StoredFlow.warning? (f : StoredFlow) (v : Cron.Verdict) : Option String :=
  v.fault.map (Cron.warning f.definition.schedule)

/-- The flows that are to be run, and the warnings about the others, in order. An instant beyond the
calendar ends the judging; the warnings up to there remain. -/
def judgeAll (now : Instant) : List StoredFlow → Except RangeFault (List StoredFlow) × List String
  | [] => (.ok [], [])
  | f :: rest =>
    match f.judge now with
    | .error e => (.error e, [])
    | .ok v =>
      let (due, warnings) := judgeAll now rest
      (due.map fun fs => if v.due then f :: fs else fs, (f.warning? v).toList ++ warnings)

end Cadence
