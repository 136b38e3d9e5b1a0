/-
A store that keeps its records as they are.

Flows are listed in the order in which they were created.  A history may be older than its
flow: runs of a flow that is not stored are kept as well.

* `Memory.apply` — the answer to a request, and the store after it.
-/
import Cadence.Store.Basic

namespace Cadence

open Calendar

/-- Flows and histories by flow id; a history keeps its `limit` latest runs. -/
structure Memory where
  limit : Int
  flows : List (String × StoredFlow)
  histories : List (String × List RunRecord)
  deriving Inhabited, Repr

namespace Memory

/-- The empty store. -/
def empty (limit : Int) : Memory := ⟨limit, [], []⟩

/-- A stored flow. -/
def find (m : Memory) (id : String) : Except StoreFault StoredFlow :=
  match m.flows.lookup id with
  | some f => .ok f
  | none => .error (.problem (.flowNotFound id))

/-- The history of a flow, stored or not. -/
def history (m : Memory) (id : String) : List RunRecord := (m.histories.lookup id).getD []

/-- Puts a record into its place. -/
def putFlow (m : Memory) (f : StoredFlow) : Memory := { m with flows := put f.id f m.flows }

/-- Stores a new flow. -/
def create (m : Memory) (f : Flow) (now : Moment) : Except StoreFault (Answer × Memory) :=
  let r := StoredFlow.new f now
  if (m.flows.lookup r.id).isSome then .error (.problem (.flowExists r.id))
  else .ok (.flow r, m.putFlow r)

/-- Changes a stored flow. -/
def change (m : Memory) (id : String) (f : StoredFlow → StoredFlow) :
    Except StoreFault (Answer × Memory) := do
  let r ← m.find id
  pure (.flow (f r), { m with flows := put id (f r) m.flows })

/-- Removes a flow and its history. -/
def remove (m : Memory) (id : String) : Except StoreFault (Answer × Memory) := do
  let _ ← m.find id
  pure (.done, { m with
    flows := m.flows.filter fun e => e.1 != id, histories :=
      m.histories.filter fun e => e.1 != id })

/-- Puts a run at the head of its history. -/
def append (m : Memory) (run : RunRecord) : Memory :=
  let history := keepFirst m.limit (run :: m.history run.flowId)
  let m := { m with histories := put run.flowId history m.histories }
  match m.flows.lookup run.flowId with
  | some f => { m with flows := put run.flowId (f.ranAt run.finishedAt) m.flows }
  | none => m

/-- The answer to a request, and the store after it. -/
def apply (m : Memory) (now : Moment) : Operation → Except StoreFault (Answer × Memory)
  | .create f => m.create f now
  | .revise id f => m.change id (·.revise id f now)
  | .remove id => m.remove id
  | .find id => (m.find id).map fun f => (.flow f, m)
  | .all => .ok (.flows (m.flows.map (·.2)), m)
  | .setEnabled id enabled => m.change id (·.setEnabled enabled now)
  | .isEnabled id => (m.find id).map fun f => (.enabled f.definition.enabled, m)
  | .append run => .ok (.done, m.append run)
  | .runs id limit => (m.find id).map fun _ =>
    (.runs (match limit with
      | none => m.history id
      | some n => keepFirst n (m.history id)), m)

/-- What a request gives cause to report: a run of a flow that is not stored. -/
def report? (m : Memory) : Operation → Option String
  | .append run =>
    if (m.flows.lookup run.flowId).isSome then none
    else some s!"Run {run.id} recorded for missing flow {run.flowId}"
  | _ => none

end Memory

end Cadence
