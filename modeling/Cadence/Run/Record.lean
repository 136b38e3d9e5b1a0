/-
Records of runs.

* `StepOutcome` — what became of one step: its output, or why it failed;
* `RunRecord` — what became of a run, with its log and the flow as it was.
-/
import Cadence.Flow.Dump

namespace Cadence

open Calendar

/-- What sets off a run. -/
inductive Trigger where
  | manual | cron
  deriving DecidableEq, Inhabited, Repr

/-- How a trigger is written. -/
def Trigger.word : Trigger → String
  | .manual => "manual"
  | .cron => "cron"

/-- All triggers by their words. -/
def Trigger.words : List (String × Trigger) := [.manual, .cron].map fun t => (t.word, t)

/-- How a run ended. -/
inductive Status where
  | success | failure
  deriving DecidableEq, Inhabited, Repr

/-- How a status is written. -/
def Status.word : Status → String
  | .success => "success"
  | .failure => "failure"

/-- All statuses by their words. -/
def Status.words : List (String × Status) := [.success, .failure].map fun s => (s.word, s)

/-- What became of one step. -/
structure StepOutcome where
  label : String
  output : Json
  error : Option String
  time : Moment
  deriving Inhabited, Repr

/-- What became of a run. -/
structure RunRecord where
  id : String
  flowId : String
  name : String
  status : Status
  trigger : Trigger
  startedAt : Moment
  finishedAt : Moment
  log : List String
  steps : List StepOutcome
  flow : Flow
  deriving Inhabited, Repr

/-- An outcome as a value. -/
def StepOutcome.toJson (o : StepOutcome) : Json := .obj [
  ("step_id", .str o.label), ("output", o.output), ("error", Json.ofText? o.error),
  ("timestamp", momentToJson o.time)]

/-- A record as a value. -/
def RunRecord.toJson (r : RunRecord) : Json := .obj [
  ("id", .str r.id), ("flow_id", .str r.flowId), ("name", .str r.name),
  ("status", .str r.status.word),
  ("trigger", .str r.trigger.word), ("started_at", momentToJson r.startedAt),
  ("finished_at", momentToJson r.finishedAt), ("log_lines", .arr (r.log.map .str)),
  ("steps", .arr (r.steps.map StepOutcome.toJson)), ("flow", r.flow.toJson)]

end Cadence
