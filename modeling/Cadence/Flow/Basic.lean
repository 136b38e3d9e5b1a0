/-
Flows, and flows in a store.

* `Flow` — what an author writes: a name, a schedule, whether it is enabled, and steps;
* `Flow.id` — the id derived from the name;
* `StoredFlow` — a flow under an id with the moments of its history.
-/
import Cadence.Flow.Id
import Cadence.Flow.Step
import Cadence.Calendar.Moment

namespace Cadence

open Calendar

/-- A flow as its author writes it. -/
structure Flow where
  name : String
  schedule : String
  enabled : Bool
  steps : List Step
  deriving Inhabited, Repr

/-- The id of a flow, derived from its name. -/
def Flow.id (f : Flow) : String := Flow.idOfName f.name

/-- A flow in a store. -/
structure StoredFlow where
  id : String
  definition : Flow
  createdAt : Moment
  updatedAt : Moment
  lastRunAt : Option Moment
  deriving Inhabited, Repr

namespace StoredFlow

/-- The record of a flow that is stored at a moment. Without an id of its own the flow goes by the
id of its name; without a moment of creation it is new. -/
def ofFlow (f : Flow) (id : Option String) (createdAt lastRunAt : Option Moment) (now : Moment) :
    StoredFlow where
  id := match id with
    | some i => if i.isEmpty then f.id else i
    | none => f.id
  definition := f
  createdAt := createdAt.getD now
  updatedAt := now
  lastRunAt := lastRunAt

/-- The record of a new flow. -/
def new (f : Flow) (now : Moment) : StoredFlow := ofFlow f none none none now

/-- The record of a flow under an id with another definition, keeping its history. -/
def revise (r : StoredFlow) (id : String) (f : Flow) (now : Moment) : StoredFlow :=
  ofFlow f (some id) (some r.createdAt) r.lastRunAt now

/-- The record switched on or off. -/
def setEnabled (r : StoredFlow) (enabled : Bool) (now : Moment) : StoredFlow :=
  { r with definition := { r.definition with enabled := enabled }, updatedAt := now }

/-- The record after a run that finished at a moment. -/
def ranAt (r : StoredFlow) (finishedAt : Moment) : StoredFlow :=
  { r with lastRunAt := some finishedAt }

end StoredFlow

end Cadence
