/-
Activities: what goes on at the same time around one store.

Requests to the store, runs and sweeps are activities.  Each goes through phases, and within a phase
it does one thing at once: one request to the store, one effect of a run, one look at the guard of
the sweeps.  Between two phases other activities may go on.

* `Phase` — where an activity is;
* `Ending` — how an activity ended;
* `Turn` — when an activity goes on.
-/
import Cadence.Run.Execution
import Cadence.Store.Backend

namespace Cadence

open Calendar

/-- Faults from outside that strike a sweep: flows whose runs break down, flows whose runs the store
refuses, and a store that does not list its flows. -/
structure Outages where
  runs : List String
  appends : List String
  list : Bool
  deriving DecidableEq, Inhabited, Repr

/-- No faults. -/
def Outages.none : Outages := ⟨[], [], false⟩

/-- How the sweeps of a scheduler follow each other: every `interval` microseconds from the
start on, until the lifespan is over. -/
structure Plan where
  interval : Nat
  lifespan : Option Int
  start : Instant
  outages : Outages
  deriving Inhabited, Repr

/-- What becomes of the record of a run. -/
inductive Goal where
  /-- It is only looked at. -/
  | look
  /-- It is put into the history of its flow. -/
  | keep
  /-- It is the run of a due flow in a sweep: put into the history unless the store refuses. -/
  | sweep (flow : StoredFlow) (refused : Bool)

/-- How an activity ended. -/
inductive Ending where
  | answer (answer : Answer)
  | refused (fault : StoreFault)
  | record (record : RunRecord)
  /-- The records of a sweep. -/
  | swept (records : List RunRecord)
  | verdict (due : Bool)
  | outOfRange (fault : RangeFault)
  /-- A run of a sweep that left no record. -/
  | lost
  /-- The end of a row of sweeps, and whether a sweep was in flight then. -/
  | stopped (busy : Bool)
  | closed
  deriving Inhabited, Repr

/-- Where an activity is. -/
inductive Phase where
  /-- Before a request to the store. -/
  | request (operation : Operation)
  /-- Before judging whether a flow is due, at a moment or right now. -/
  | judge (id : String) (now : Option Moment)
  /-- Before loading a flow and running it. -/
  | load (id : String) (trigger : Trigger) (interpret : Interpreter) (goal : Goal)
  /-- Within a run. -/
  | run (rest : Task RunRecord) (goal : Goal)
  /-- Before the record of a run is put into the history. -/
  | append (record : RunRecord) (goal : Goal)
  /-- Before the run of a due flow breaks down. -/
  | lose (flow : StoredFlow)
  /-- Before a sweep. -/
  | sweep (now : Option Moment) (outages : Outages) (spawned : Bool)
  /-- Within a sweep, before its flows are listed. -/
  | survey (now : Option Moment) (outages : Outages) (spawned : Bool)
  /-- Within a sweep, whose runs are going on. -/
  | collect (runs : List Nat)
  /-- Before a row of sweeps. -/
  | commence (plan : Plan)
  /-- Before the next sweep of a row. -/
  | attempt (plan : Plan)
  /-- Between two sweeps of a row. -/
  | rest (plan : Plan)
  /-- At the end of a row of sweeps. -/
  | wind
  /-- Before asking the row of sweeps to end. -/
  | stop
  /-- Before the end. -/
  | close

/-- When an activity goes on. -/
inductive Turn where
  /-- At an instant. -/
  | time (instant : Instant)
  /-- At an instant, or as soon as the row of sweeps is asked to end. -/
  | timeOrStop (instant : Instant)
  /-- When other activities have ended. -/
  | after (others : List Nat)
  deriving DecidableEq, Inhabited, Repr

/-- An activity that has not ended. Of two that may go on, the one with the lower rank does. -/
structure Activity where
  id : Nat
  turn : Turn
  rank : Nat
  phase : Phase

end Cadence
