/-
What a store of flows and runs is asked, and what it answers.

* `Operation`, `Answer` — the requests to a store and its answers;
* `StoreFault` — why a store refuses.
-/
import Cadence.Problem
import Cadence.Run.Record
import Cadence.Validation.Issue

namespace Cadence

/-- A request to a store. -/
inductive Operation where
  /-- Stores a new flow under the id of its name. -/
  | create (flow : Flow)
  /-- Gives a stored flow another definition. -/
  | revise (id : String) (flow : Flow)
  /-- Removes a flow and its history. -/
  | remove (id : String)
  /-- A stored flow. -/
  | find (id : String)
  /-- All stored flows. -/
  | all
  /-- Switches a flow on or off. -/
  | setEnabled (id : String) (enabled : Bool)
  /-- Whether a flow is switched on. -/
  | isEnabled (id : String)
  /-- Puts a run at the head of the history of its flow. -/
  | append (run : RunRecord)
  /-- The history of a flow, latest run first, or its beginning. -/
  | runs (id : String) (limit : Option Int)
  deriving Inhabited, Repr

/-- The answer to a request. -/
inductive Answer where
  | done
  | flow (flow : StoredFlow)
  | flows (flows : List StoredFlow)
  | enabled (enabled : Bool)
  | runs (runs : List RunRecord)
  deriving Inhabited, Repr

/-- Why a store refuses a request. -/
inductive StoreFault where
  | problem (problem : Problem)
  /-- A document cannot be written down. -/
  | unwritable (reason : String)
  /-- A stored document cannot be read. -/
  | unreadable (issues : List Validation.Issue)
  /-- A limit is beyond the integers of the store. -/
  | limit
  /-- The store is out of order. -/
  | outage (text : String)
  deriving Inhabited, Repr

/-- The flow that an answer holds. -/
def Answer.flow? : Answer → Option StoredFlow
  | .flow f => some f
  | _ => none

/-- The flows that an answer lists. -/
def Answer.flowList : Answer → List StoredFlow
  | .flows fs => fs
  | _ => []

/-- The runs that an answer lists. -/
def Answer.runList : Answer → List RunRecord
  | .runs rs => rs
  | _ => []

/-- The beginning of a list. A negative count leaves out as many at the end. -/
def keepFirst {α : Type} (count : Int) (xs : List α) : List α :=
  if 0 ≤ count then xs.take count.toNat else xs.take (xs.length - count.natAbs)

end Cadence
