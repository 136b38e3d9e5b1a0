/-
A store, a scheduler and everything that goes on around them.

At most one sweep is in flight: it holds the guard, and a sweep that finds the guard held does
nothing.

* `Engine.step` — one activity does one thing;
* `Engine.next?` — the activity whose turn is first;
* `Engine.runFor` — the activities in the order of their turns, until given ones have ended.
-/
import Cadence.Scheduler.Activity
import Cadence.Scheduler.Due
import Cadence.Task.Surroundings

namespace Cadence

open Calendar

/-- How an activity ended, and when. -/
structure Ended where
  id : Nat
  ending : Ending
  time : Instant
  deriving Inhabited, Repr

/-- The state of everything. -/
structure Engine where
  world : Surroundings
  store : Store
  /-- The interpreter of all runs. -/
  interpret : Interpreter
  /-- Whether a sweep is in flight. -/
  guard : Bool
  /-- Whether the row of sweeps is asked to end. -/
  stopping : Bool
  /-- The latest sweep of the row. -/
  latest : Option Nat
  activities : List Activity
  endings : List Ended
  /-- The next id and rank. -/
  count : Nat

namespace Engine

/-- A store at rest. -/
def start (world : Surroundings) (store : Store) (interpret : Interpreter) : Engine :=
  ⟨world, store, interpret, false, false, none, [], [], 0⟩

/-- The time. -/
def clock (s : Engine) : Instant := s.world.clock

/-- The time as the store records it. -/
def now (s : Engine) : Moment := s.world.clock.toMoment

/-- Adds a report. -/
def report (s : Engine) (level : Level) (text : String) : Engine :=
  { s with world := s.world.report level text }

/-- Adds warnings. -/
def warn (s : Engine) (texts : List String) : Engine := texts.foldl (·.report .warning ·) s

/-- Adds an activity. -/
def spawn (s : Engine) (turn : Turn) (phase : Phase) : Engine :=
  { s with activities := s.activities ++ [⟨s.count, turn, s.count, phase⟩], count := s.count + 1 }

/-- Adds an activity whose turn is now. -/
def spawnNow (s : Engine) (phase : Phase) : Engine := s.spawn (.time s.clock) phase

/-- Ends an activity. -/
def finish (s : Engine) (a : Activity) (ending : Ending) : Engine :=
  { s with
    activities := s.activities.filter (·.id != a.id), endings :=
      ⟨a.id, ending, s.clock⟩ :: s.endings }

/-- Takes an activity to another phase. -/
def enter (s : Engine) (a : Activity) (phase : Phase) : Engine :=
  { s with activities := s.activities.map fun b => if b.id = a.id
    then { b with phase := phase } else b }

/-- Takes an activity to another phase, in which it waits for a turn. -/
def wait (s : Engine) (a : Activity) (turn : Turn) (phase : Phase) : Engine :=
  { s with
    activities := s.activities.map fun b =>
      if b.id = a.id then { b with turn := turn, rank := s.count, phase := phase } else b
    count := s.count + 1 }

/-- Makes a request to the store. -/
def ask (s : Engine) (op : Operation) : Except StoreFault Answer × Engine :=
  let (answer, store) := s.store.apply s.now op
  (answer, { s with store := store }.warn (s.store.report? op).toList)

/-- Ends an activity with the answer to a request. -/
def request (s : Engine) (a : Activity) (op : Operation) : Engine :=
  match s.ask op with
  | (.ok answer, s) => s.finish a (.answer answer)
  | (.error fault, s) => s.finish a (.refused fault)

/-- Judges whether a flow is due. -/
def judge (s : Engine) (a : Activity) (id : String) (now : Option Moment) : Engine :=
  match s.ask (.find id) with
  | (.error fault, s) => s.finish a (.refused fault)
  | (.ok answer, s) =>
    match answer.flow?, (now.getD s.now).toInstant with
    | none, _ => s.finish a .closed
    | some _, .error e => s.finish a (.outOfRange e)
    | some f, .ok t =>
      match f.judge t with
      | .error e => s.finish a (.outOfRange e)
      | .ok v => (s.warn (f.warning? v).toList).finish a (.verdict v.due)

/-- Loads a flow and begins its run. -/
def load (s : Engine) (a : Activity) (id : String) (trigger : Trigger) (interpret : Interpreter)
    (goal : Goal) : Engine :=
  match s.ask (.find id) with
  | (.error fault, s) => s.finish a (.refused fault)
  | (.ok answer, s) =>
    match answer.flow? with
    | none => s.finish a .closed
    | some f => s.enter a (.run (f.record interpret trigger) goal)

/-- Does the next thing of a run. -/
def run (s : Engine) (a : Activity) (goal : Goal) : Task RunRecord → Engine
  | .done record =>
    match goal with
    | .look => s.finish a (.record record)
    | _ => s.enter a (.append record goal)
  | .ask (.wait micros) next =>
    s.wait a (.time (s.clock.after micros)) (.run (next ()) goal)
  | .ask e next =>
    let (answer, world) := s.world.perform e
    { s with world := world }.enter a (.run (next answer) goal)

/-- Ends a run of a sweep that left no record. -/
def lose (s : Engine) (a : Activity) (f : StoredFlow) : Engine :=
  (s.report .error s!"Failed to run \"{f.definition.name}\" ({f.id})").finish a .lost

/-- Puts the record of a run into the history of its flow. -/
def append (s : Engine) (a : Activity) (record : RunRecord) (goal : Goal) : Engine :=
  match goal with
  | .sweep f true => s.lose a f
  | _ =>
    match s.ask (.append record), goal with
    | (.ok _, s), _ => s.finish a (.record record)
    | (.error _, s), .sweep f _ => s.lose a f
    | (.error fault, s), _ => s.finish a (.refused fault)

/-- Ends a sweep that failed. The failure of a sweep of the row is reported. -/
def failSweep (s : Engine) (a : Activity) (spawned : Bool) (ending : Ending) : Engine :=
  let s := { s with guard := false }
  if spawned then (s.report .error "Scheduler tick failed").finish a .closed else s.finish a ending

/-- Begins a sweep, unless one is in flight. -/
def sweep (s : Engine) (a : Activity) (now : Option Moment) (outages : Outages) (spawned : Bool) :
    Engine :=
  if s.guard then
    (s.report .warning "Previous scheduler tick still running; skipping").finish a (.swept [])
  else { s with guard := true }.enter a (.survey now outages spawned)

/-- Begins the run of a due flow. -/
def spawnRun (outages : Outages) (s : Engine) (f : StoredFlow) : Engine :=
  if outages.runs.contains f.id then s.spawnNow (.lose f)
  else s.spawnNow (.run (f.record s.interpret .cron) (.sweep f (outages.appends.contains f.id)))

/-- Begins the runs of the due flows; without any the sweep ends. -/
def spawnRuns (s : Engine) (a : Activity) (outages : Outages) (due : List StoredFlow) : Engine :=
  if due.isEmpty then { s with guard := false }.finish a (.swept [])
  else
    let ids := (List.range due.length).map (s.count + ·)
    (due.foldl (spawnRun outages) s).wait a (.after ids) (.collect ids)

/-- Lists the flows and begins the runs of those that are due. -/
def survey (s : Engine) (a : Activity) (now : Option Moment) (outages : Outages) (spawned : Bool) :
    Engine :=
  match if outages.list then (.error (.outage "list fault"), s) else s.ask .all with
  | (.error fault, s) => s.failSweep a spawned (.refused fault)
  | (.ok answer, s) =>
    match (now.getD s.now).toInstant with
    | .error e => s.failSweep a spawned (.outOfRange e)
    | .ok t =>
      let (due, warnings) := judgeAll t answer.flowList
      let s := s.warn warnings
      match due with
      | .error e => s.failSweep a spawned (.outOfRange e)
      | .ok due => s.spawnRuns a outages due

/-- How an activity ended, and when. -/
def ended? (s : Engine) (id : Nat) : Option Ended := s.endings.find? (·.id == id)

/-- The record with which an activity ended. -/
def recordOf? (s : Engine) (id : Nat) : Option RunRecord :=
  match s.ended? id with
  | some ⟨_, .record r, _⟩ => some r
  | _ => none

/-- Ends a sweep whose runs have ended. -/
def collect (s : Engine) (a : Activity) (runs : List Nat) : Engine :=
  { s with guard := false }.finish a (.swept (runs.filterMap s.recordOf?))

/-- How much of its lifespan a row of sweeps has left. -/
def left? (s : Engine) (plan : Plan) : Option Int :=
  plan.lifespan.map fun l => l - (s.clock.micros - plan.start.micros)

/-- Goes over to the end of a row of sweeps, which is the end of the latest sweep. -/
def wind (s : Engine) (a : Activity) : Engine := s.wait a (.after s.latest.toList) .wind

/-- Attempts a sweep of a row: it is skipped while another one is in flight. -/
def attempt (s : Engine) (a : Activity) (plan : Plan) : Engine :=
  if s.stopping then s.wind a
  else
    let s :=
      if s.guard then s.report .warning "Previous scheduler tick still running; skipping interval"
      else { s with latest := some s.count }.spawnNow (.sweep none plan.outages true)
    match s.left? plan with
    | none => s.wait a (.timeOrStop (s.clock.after plan.interval)) (.rest plan)
    | some left =>
      if left ≤ 0 then s.wind a
      else s.wait a (.timeOrStop (s.clock.after (min (plan.interval : Int) left))) (.rest plan)

/-- Goes on after the pause between two sweeps. -/
def rested (s : Engine) (a : Activity) (plan : Plan) : Engine :=
  if (s.left? plan).any (· ≤ 0) then s.wind a else s.enter a (.attempt plan)

/-- One activity does one thing. -/
def step (s : Engine) (a : Activity) : Engine :=
  match a.phase with
  | .request op => s.request a op
  | .judge id now => s.judge a id now
  | .load id trigger interpret goal => s.load a id trigger interpret goal
  | .run rest goal => s.run a goal rest
  | .append record goal => s.append a record goal
  | .lose f => s.lose a f
  | .sweep now outages spawned => s.sweep a now outages spawned
  | .survey now outages spawned => s.survey a now outages spawned
  | .collect runs => s.collect a runs
  | .commence plan => { s with stopping := false }.enter a (.attempt { plan with start := s.clock })
  | .attempt plan => s.attempt a plan
  | .rest plan => s.rested a plan
  | .wind => s.finish a (.stopped s.guard)
  | .stop => { s with stopping := true }.finish a .closed
  | .close => s.finish a .closed

/-- Whether an activity is going on. -/
def isGoing (s : Engine) (id : Nat) : Bool := s.activities.any (·.id == id)

/-- The instant from which on an activity may go on. -/
def turnOf? (s : Engine) : Turn → Option Instant
  | .time t => some t
  | .timeOrStop t => some (if s.stopping then s.clock else t)
  | .after others => if others.any s.isGoing then none else some s.clock

/-- Whether one turn comes before another one: earlier, or at the same time with a lower rank. -/
def isBefore (x y : Instant × Activity) : Bool :=
  decide (x.1 < y.1) || (decide (x.1 = y.1) && decide (x.2.rank < y.2.rank))

/-- The activity whose turn is first, and the instant of its turn. -/
def next? (s : Engine) : Option (Instant × Activity) :=
  (s.activities.filterMap fun a => (s.turnOf? a.turn).map fun t => (t, a)).foldl (fun best x =>
    match best with
    | none => some x
    | some b => if isBefore x b then some x else some b) none

/-- Lets time pass up to an instant. -/
def waitUntil (s : Engine) (t : Instant) : Engine :=
  { s with world := { s.world with clock := if s.clock < t then t else s.clock } }

/-- Lets the activities go on in the order of their turns until given ones have ended, in at most
`fuel` steps. -/
def runFor (s : Engine) (ids : List Nat) : Nat → Engine
  | 0 => s
  | fuel + 1 =>
    if ids.any s.isGoing then
      match s.next? with
      | none => s
      | some (t, a) => ((s.waitUntil t).step a).runFor ids fuel
    else s

end Engine

end Cadence
