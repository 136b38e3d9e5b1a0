/-
What commands do.

* `Command.act` — what a command does;
* `Desk.answer` — the end, the lines and the desk after a command line.
-/
import Cadence.Command.Desk
import Cadence.Command.Line

namespace Cadence

open Calendar

/-- The number of issues of a model, in words. -/
def issueCount (model : String) (count : Nat) : String :=
  if count = 1 then s!"1 validation error for {model}"
    else s!"{count} validation errors for {model}"

/-- Why a file gives no flow, where that is the author's fault. -/
def FlowFileFault.complaint? : FlowFileFault → Option String
  | .invalid issues => some (issueCount "FlowConfig" issues.length)
  | f => f.message?

/-- A point in time, or that there was none. -/
def momentOrNever : Option Moment → String
  | some m => m.isoText
  | none => "never"

/-- Whether a flow is switched on, in words. -/
def enabledWord (enabled : Bool) : String := if enabled then "enabled" else "disabled"

/-- The steps of a flow with their numbers. -/
def stepLines (number : Nat) : List Step → List String
  | [] => []
  | s :: rest =>
    let label := match s with
      | .fetch f => s!"fetch:{f.id}"
      | s => s.kind
    s!"  {number}. {label}" :: stepLines (number + 1) rest

/-- The description of a flow. -/
def StoredFlow.description (f : StoredFlow) : List String := [
  s!"Flow {f.id}: {f.definition.name}",
  s!"Schedule: {f.definition.schedule} ({enabledWord f.definition.enabled})",
  s!"Created: {f.createdAt.isoText}",
  s!"Updated: {f.updatedAt.isoText}",
  s!"Last run: {momentOrNever f.lastRunAt}"] ++ stepLines 1 f.definition.steps

/-- A flow in a list. -/
def StoredFlow.line (f : StoredFlow) : String :=
  "\t".intercalate [
    f.id, f.definition.schedule, enabledWord f.definition.enabled, momentOrNever f.lastRunAt]

/-- A run in a history, with the first step that failed. -/
def RunRecord.historyLines (r : RunRecord) : List String :=
  let line := "\t".intercalate [r.finishedAt.isoText, r.trigger.word, r.status.word, r.id]
  let failed := r.steps.findSome? fun s =>
    (s.error.filter (!·.isEmpty)).map fun e => s!"  {s.label}: {e}"
  line :: failed.toList

namespace Command

open Act

/-- The flow that a file defines. -/
def definition (path : String) : Act Flow := do
  match Flow.load (← get).host path with
  | .ok f => pure f
  | .error .missing => fail s!"Flow file not found: {Text.tidyPath path}"
  | .error fault =>
    match fault.complaint? with
    | some reason => fail s!"Invalid flow file {Text.tidyPath path}: {reason}"
    | none => broken (.file fault)

/-- The instant that an option gives; an empty one gives none. -/
def timestamp (given : Option String) : Act (Option Instant) := do
  match given.filter (!·.isEmpty) with
  | none => pure none
  | some s =>
    match Instant.parse s with
    | .ok t => pure (some t)
    | .error (.moment f) => fail s!"Invalid timestamp: {f.message}"
    | .error (.range f) => broken (.range f)

/-- A value within the calendar. -/
def inRange {α : Type} : Except RangeFault α → Act α
  | .ok a => pure a
  | .error f => broken (.range f)

/-- Tells whether a schedule is due, and when it occurs next. -/
def checkSchedule (schedule : String) (lastRun now : Option String) : Act Unit := do
  let time := (← timestamp now).getD (← get).world.clock
  let last := (← timestamp lastRun).map Instant.toMoment
  let reference ← inRange (Cron.reference last time)
  match Cron.nextRunAfter schedule reference with
  | .error (.range f) => broken (.range f)
  | .error .lastSecond => broken .lastSecond
  | .error f => fail (Cron.warning schedule f)
  | .ok upcoming =>
    let verdict ← inRange (Cron.isDue schedule last time)
    let word := if verdict.due then "DUE" else "WAIT"
    say s!"{word} (next run {upcoming.isoText})"

/-- Runs a flow and shows its log. -/
def runNow (id : String) : Act Unit := do
  let s ← settings
  openStore
  match ← runFlow s.client id with
  | .error fault => refuse fault
  | .ok r =>
    say s!"Run {r.id} {r.status.word}"
    sayAll r.log
    if r.status = .failure then throw .failure

/-- Sweeps the store. An interval of zero stands for the one in the settings. -/
def runScheduler (interval lifespan : Option Float) : Act Unit := do
  let s ← settings
  openStore
  let interval := (interval.filter fun x => !(x == 0.0)).getD s.interval
  say s!"Starting scheduler (interval {Decimal.text interval}s)"
  sweep s.client (secondsMicros interval).toNat (lifespan.map secondsMicros)

/-- What a command does. -/
def act : Command → Act Unit
  | .create path => do
    let f ← definition path
    openStore
    say s!"Created flow {(← askFlow (.create f)).id}"
  | .revise id path => do
    let f ← definition path
    openStore
    say s!"Updated flow {(← askFlow (.revise id f)).id}"
  | .list => do
    openStore
    let flows := (← ask .all).flowList
    if flows.isEmpty then say "No flows found" else sayAll (flows.map StoredFlow.line)
  | .inspect id => do
    openStore
    sayAll (← askFlow (.find id)).description
  | .remove id => do
    openStore
    let _ ← ask (.remove id)
    say s!"Deleted flow {id}"
  | .switch id enabled => do
    openStore
    let f ← askFlow (.setEnabled id enabled)
    say s!"Flow {f.id} {enabledWord f.definition.enabled}"
  | .run id => runNow id
  | .history id limit => do
    openStore
    let runs := (← ask (.runs id limit)).runList
    if runs.isEmpty then say "No runs recorded" else sayAll (runs.flatMap RunRecord.historyLines)
  | .start interval lifespan => runScheduler interval lifespan
  | .check schedule lastRun now => checkSchedule schedule lastRun now
  | .help => say "Commands: flow, scheduler, cron"

end Command

/-- Whether a character may stand between the beginning and the end of an instruction to a
terminal. -/
def isStylePart (c : Char) : Bool := c == ';' || c == '?' || c.isDigit

/-- What stands between one escape character and the next, without an instruction at its
beginning. -/
def afterEscape (cs : List Char) : List Char :=
  match cs with
  | '[' :: rest =>
    match rest.dropWhile isStylePart with
    | d :: after => if d.isAlpha then after else '\x1b' :: cs
    | [] => '\x1b' :: cs
  | cs => '\x1b' :: cs

/-- Leaves out the instructions that tell a terminal how to show a text. -/
def withoutStyle (cs : List Char) : List Char :=
  match Text.splitChars '\x1b' cs with
  | [] => []
  | first :: rest => first ++ rest.flatMap afterEscape

/-- The end, the lines and the desk after a command line. -/
def Desk.answer (d : Desk) (args : List String) : Exit × List String × Desk :=
  match Command.parse args with
  | some c =>
    let (exit, lines, d) := d.perform c.act
    (exit, lines.map fun s => String.ofList (withoutStyle s.toList), d)
  | none => (.misuse, [], d)

end Cadence
