/-
A store that keeps its records as JSON documents in tables.

A record is written down when it is stored and read again, with all checks, whenever it is
needed.  JSON has no word for numbers that are not finite, so they are written as null; a
codec says what else cannot be written or read.  Flows are listed in the order of their ids.
The rows of runs are numbered in the order in which they came, and no number is given out
twice.

* `Table.Script` — what is done with the tables for a request, statement by statement;
* `Table.transaction` — a script that is undone as a whole when it fails;
* `Table.apply` — the answer to a request, and the tables after it.
-/
import Cadence.Json.Print
import Cadence.Run.Validate
import Cadence.Store.Basic
import Cadence.Store.Codec

namespace Cadence

open Calendar

/-- A row of the table of flows. -/
structure FlowRow where
  id : String
  document : Json
  deriving Inhabited, Repr

/-- A row of the table of runs. -/
structure RunRow where
  seq : Nat
  id : String
  flowId : String
  document : Json
  deriving Inhabited, Repr

/-- The tables. A history keeps its `limit` latest runs; there is no limit below zero. -/
structure Table where
  codec : Codec
  limit : Int
  flows : List FlowRow
  runs : List RunRow
  /-- The number of the latest row of runs that was ever stored. -/
  sequence : Nat
  deriving Inhabited

namespace Table

/-- The empty tables. -/
def empty (codec : Codec) (limit : Int) : Table := ⟨codec, limit, [], [], 0⟩

/-- The tables as one value. -/
def toJson (t : Table) : Json := .obj [
  ("flows", .arr (t.flows.map fun r => .obj [("id", .str r.id), ("flow", r.document)])),
  ("runs", .arr (t.runs.map fun r => .obj [
    ("seq", .int r.seq), ("id", .str r.id), ("flow_id", .str r.flowId), ("run", r.document)])),
  ("sequence", .int t.sequence)]

/-- The row of the table of flows that a value stands for. -/
def flowRowOfJson? (v : Json) : Option FlowRow :=
  match v.get? "id", v.get? "flow" with
  | some (.str id), some flow => some ⟨id, flow⟩
  | _, _ => none

/-- The row of the table of runs that a value stands for. -/
def runRowOfJson? (v : Json) : Option RunRow :=
  match v.get? "seq", v.get? "id", v.get? "flow_id", v.get? "run" with
  | some (.int seq), some (.str id), some (.str flowId), some run =>
    some ⟨seq.toNat, id, flowId, run⟩
  | _, _, _, _ => none

/-- The tables of a value. -/
def ofJson? (codec : Codec) (v : Json) : Option Table :=
  match v.get? "flows", v.get? "runs", v.get? "sequence" with
  | some (.arr flows), some (.arr runs), some (.int sequence) => do
    pure ⟨codec, 0, ← flows.mapM flowRowOfJson?, ← runs.mapM runRowOfJson?, sequence.toNat⟩
  | _, _, _ => none

/-- A document as it is written down. -/
def written (v : Json) : Json := v.dropNonFinite

/-- Reads the text of a document. -/
def parse (codec : Codec) (v : Json) : Except StoreFault Document :=
  match codec.unreadable? v.outline with
  | none => .ok (.ofJson v)
  | some reason => .error (.unreadable [⟨[], .invalidJson reason⟩])

/-- Reads a flow. -/
def readFlow (codec : Codec) (v : Json) : Except StoreFault StoredFlow := do
  (StoredFlow.ofDocument (← parse codec v)).mapError .unreadable

/-- Reads a run. -/
def readRun (codec : Codec) (v : Json) : Except StoreFault RunRecord := do
  (RunRecord.ofDocument "" ⟨0, some 0⟩ (← parse codec v)).mapError .unreadable

/-- The document of a flow. -/
def document? (t : Table) (id : String) : Option Json :=
  (t.flows.find? fun r => r.id = id).map (·.document)

/-- The documents of all flows in the order of their ids. -/
def documents (t : Table) : List Json :=
  (t.flows.mergeSort fun r r' => decide (r.id ≤ r'.id)).map (·.document)

/-- Stores the document of a new flow. -/
def insertFlow (t : Table) (id : String) (v : Json) : Table :=
  { t with flows := t.flows ++ [⟨id, v⟩] }

/-- Stores another document of a flow. -/
def updateFlow (t : Table) (id : String) (v : Json) : Table :=
  { t with flows := t.flows.map fun r => if r.id = id then { r with document := v } else r }

/-- Removes a flow, without its runs. -/
def deleteFlow (t : Table) (id : String) : Table :=
  { t with flows := t.flows.filter fun r => r.id != id }

/-- The largest integer of the tables. -/
def maxInteger : Int := 9223372036854775807

/-- Whether a limit can be asked for. -/
def isLimit (n : Int) : Bool := -maxInteger - 1 ≤ n && n ≤ maxInteger

/-- The rows within a limit; there is no limit below zero. -/
def within {α : Type} (limit : Int) (rows : List α) : List α :=
  if limit < 0 then rows else rows.take limit.toNat

/-- The latest runs of a flow, up to a limit, the last one first. -/
def latestRuns (t : Table) (flowId : String) (limit : Int) : List RunRow :=
  within limit ((t.runs.filter fun r => r.flowId = flowId).mergeSort fun r r' =>
    decide (r'.seq ≤ r.seq))

/-- Stores the document of a run under the next number. -/
def insertRun (t : Table) (run : RunRecord) : Table :=
  { t with
    runs := t.runs ++ [⟨t.sequence + 1, run.id, run.flowId, written run.toJson⟩]
    sequence := t.sequence + 1 }

/-- Removes the runs of a flow that are not among the latest ones. -/
def trimRuns (t : Table) (flowId : String) : Table :=
  let kept := (t.latestRuns flowId t.limit).map (·.seq)
  { t with runs := t.runs.filter fun r => !(decide (r.flowId = flowId) && !kept.contains r.seq) }

/-- Removes all runs of a flow. -/
def deleteRuns (t : Table) (flowId : String) : Table :=
  { t with runs := t.runs.filter fun r => r.flowId != flowId }

/-- A row of statements on the tables. What was done before a statement fails stays done. -/
abbrev Script (α : Type) := ExceptT StoreFault (StateM Table) α

/-- A script whose statements are all undone when one of them fails. -/
def transaction {α : Type} (script : Script α) : Script α := fun t =>
  match script t with
  | (.ok a, after) => (.ok a, after)
  | (.error e, _) => (.error e, t)

/-- Reads a flow if there is one. -/
def flow? (id : String) : Script (Option StoredFlow) := do
  let t ← get
  match t.document? id with
  | none => pure none
  | some v =>
    match readFlow t.codec v with
    | .ok f => pure (some f)
    | .error e => throw e

/-- Reads a flow. -/
def find (id : String) : Script StoredFlow := do
  match ← flow? id with
  | some f => pure f
  | none => throw (.problem (.flowNotFound id))

/-- Stores the document of a record in the place of the one before. -/
def putFlow (f : StoredFlow) : Script Unit := modify (·.updateFlow f.id (written f.toJson))

/-- Refuses a run whose document cannot be written down. The documents of flows always can:
they are not nested deeply, and their texts are texts of characters. -/
def checkRun (run : RunRecord) : Script Unit := do
  match (← get).codec.unwritable? run.toJson with
  | none => pure ()
  | some reason => throw (.unwritable reason)

/-- Refuses a limit that is beyond the integers of the tables. -/
def checkLimit (n : Int) : Script Unit := if isLimit n then pure () else throw .limit

/-- Stores a new flow. -/
def create (f : Flow) (now : Moment) : Script Answer := transaction do
  let r := StoredFlow.new f now
  if ((← get).document? r.id).isSome then throw (.problem (.flowExists r.id))
  modify (·.insertFlow r.id (written r.toJson))
  pure (.flow r)

/-- Changes a stored flow. -/
def change (id : String) (f : StoredFlow → StoredFlow) : Script Answer := transaction do
  let r := f (← find id)
  putFlow r
  pure (.flow r)

/-- Removes a flow and its history. -/
def remove (id : String) : Script Answer := transaction do
  let _ ← find id
  modify (·.deleteFlow id)
  modify (·.deleteRuns id)
  pure .done

/-- Puts a run at the head of its history. -/
def append (run : RunRecord) : Script Answer := transaction do
  checkRun run
  modify (·.insertRun run)
  checkLimit (← get).limit
  modify (·.trimRuns run.flowId)
  match ← flow? run.flowId with
  | none => pure .done
  | some f =>
    putFlow (f.ranAt run.finishedAt)
    pure .done

/-- All flows. -/
def all : Script Answer := do
  let t ← get
  match t.documents.mapM (readFlow t.codec) with
  | .ok fs => pure (.flows fs)
  | .error e => throw e

/-- The history of a flow, or its beginning. -/
def history (id : String) (limit : Option Int) : Script Answer := do
  let _ ← find id
  checkLimit (limit.getD (-1))
  let t ← get
  match (t.latestRuns id (limit.getD (-1))).mapM fun r => readRun t.codec r.document with
  | .ok rs => pure (.runs rs)
  | .error e => throw e

/-- What is done for a request. -/
def script (now : Moment) : Operation → Script Answer
  | .create f => create f now
  | .revise id f => change id (·.revise id f now)
  | .remove id => remove id
  | .find id => return .flow (← find id)
  | .all => all
  | .setEnabled id enabled => change id (·.setEnabled enabled now)
  | .isEnabled id => return .enabled (← find id).definition.enabled
  | .append run => append run
  | .runs id limit => history id limit

/-- The answer to a request, and the tables after it. -/
def apply (t : Table) (now : Moment) (op : Operation) : Except StoreFault Answer × Table :=
  script now op t

end Table

end Cadence
