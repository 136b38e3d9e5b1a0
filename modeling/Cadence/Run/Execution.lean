/-
Running the steps of a flow.

The steps run in order.  The run ends at the first step that fails, and it ends early, but in
success, at the first rule that does not hold.

* `runSteps` — the task of running steps from a state on;
* `Flow.record` — the task of running a flow and recording what became of it.
-/
import Cadence.Run.Record
import Cadence.Run.Step

namespace Cadence

open Calendar

/-- What became of a row of steps. -/
structure Execution where
  success : Bool
  outcomes : List StepOutcome
  context : Context
  deriving Inhabited, Repr

/-- Runs steps in order. -/
def runSteps (client : Http.Client) : List Step → Context → Task Execution
  | [], c => pure ⟨true, [], c⟩
  | s :: rest, c => do
    let (result, c) ← s.perform client c
    let time ← Task.now
    match result with
    | .error fault =>
      let text := fault.message
      Task.report .warning s!"Step {s.label} failed: {text}"
      return ⟨false, [⟨s.label, .null, some text, time.toMoment⟩],
        c.logged s!"[{s.kind}] Error: {text}"⟩
    | .ok output =>
      let outcome : StepOutcome := ⟨s.label, output, none, time.toMoment⟩
      match s.stopLine? output with
      | some line => return ⟨true, [outcome], c.logged line⟩
      | none =>
        let e ← runSteps client rest c
        return { e with outcomes := outcome :: e.outcomes }

/-- What an interpreter of steps comes to: an execution, or a breakdown of its own. -/
inductive Interpretation where
  | finished (execution : Execution)
  | broken (text : String) (context : Context)
  deriving Inhabited, Repr

/-- An interpreter of steps. -/
abbrev Interpreter := List Step → Context → Task Interpretation

/-- The interpreter that runs the steps. -/
def interpreter (client : Http.Client) : Interpreter := fun steps c => do
  return .finished (← runSteps client steps c)

/-- An interpreter that breaks down at once. -/
def brokenInterpreter (text : String) : Interpreter := fun _ c => pure (.broken text c)

/-- The execution that an interpretation stands for. A breakdown counts as one failed step. -/
def Interpretation.settle (flowId : String) : Interpretation → Task Execution
  | .finished e => pure e
  | .broken text c => do
    Task.report .error s!"Execution of flow {flowId} aborted"
    let time ← Task.now
    return ⟨false, [⟨"execution", .null, some text, time.toMoment⟩], c.logged text⟩

/-- Runs a stored flow and records what became of it. -/
def StoredFlow.record (interpret : Interpreter) (f : StoredFlow)
    (trigger : Trigger) : Task RunRecord := do
  let started ← Task.now
  let first := s!"[system] Triggered by {trigger.word} at {started.isoText}"
  let e ← (← interpret f.definition.steps (.fresh [first])).settle f.id
  let finished ← Task.now
  let id ← Task.newId
  return {
    id, flowId := f.id, name := f.definition.name
    status := if e.success then .success else .failure
    trigger, startedAt := started.toMoment, finishedAt := finished.toMoment
    log := e.context.log, steps := e.outcomes, flow := f.definition }

end Cadence
