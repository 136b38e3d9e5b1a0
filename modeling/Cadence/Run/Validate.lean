/-
Reading stored flows and run records out of documents.

* `StoredFlow.ofDocument`, `RunRecord.ofDocument` — a record, or all issues of the document.
-/
import Cadence.Flow.Validate
import Cadence.Run.Record
import Cadence.Validation.Moment

namespace Cadence

open Validation Calendar

mutual

/-- A document as a JSON value. What JSON has no word for is written as text. -/
def Document.toJson : Document → Json
  | .null => .null
  | .bool b => .bool b
  | .int n => .int n
  | .float x => .float x
  | .str s => .str s
  | .seq items => .arr (Document.itemsToJson items)
  | .map entries => .obj (Document.entriesToJson entries)
  | .bytes bs => .str (Document.text (.bytes bs))
  | .date d => .str (Document.text (.date d))
  | .moment m => .str m.isoText

/-- `toJson` for each item. -/
def Document.itemsToJson : List Document → List Json
  | [] => []
  | v :: vs => v.toJson :: Document.itemsToJson vs

/-- `toJson` for each entry. -/
def Document.entriesToJson : List (Document × Document) → List (String × Json)
  | [] => []
  | (k, v) :: rest => (k.text, v.toJson) :: Document.entriesToJson rest

end

/-- A flow in a store. -/
def StoredFlow.ofDocument (d : Document) : Checked StoredFlow := do
  let es ← entriesOr (.notModel "FlowRecord") d
  let make (f : Flow) (id : String) (createdAt updatedAt : Moment)
      (lastRunAt : Option Moment) : StoredFlow :=
    ⟨id, f, createdAt, updatedAt, lastRunAt⟩
  let r ← Checked.apply (Checked.apply (Checked.apply (Checked.apply (Checked.apply (.ok make)
    (Flow.ofEntries es))
    (required "id" text es))
    (required "created_at" moment es))
    (required "updated_at" moment es))
    (withDefault "last_run_at" none (optional moment) es)
  let _ ← r.definition.checked
  pure r

/-- The outcome of a step; an outcome without a time of its own has the given one. -/
def StepOutcome.ofDocument (now : Moment) (d : Document) : Checked StepOutcome := do
  let es ← entriesOr (.notModel "StepOutcome") d
  Checked.apply (Checked.apply (Checked.apply (Checked.apply (.ok StepOutcome.mk)
    (required "step_id" text es))
    (withDefault "output" .null (fun v => .ok v.toJson) es))
    (withDefault "error" none (optional text) es))
    (withDefault "timestamp" now moment es)

/-- The record of a run; a record without an id of its own has the given one. -/
def RunRecord.ofDocument (id : String) (now : Moment) (d : Document) : Checked RunRecord := do
  let es ← entriesOr (.notModel "RunRecord") d
  Checked.apply (Checked.apply (Checked.apply (Checked.apply (Checked.apply (Checked.apply
    (Checked.apply (Checked.apply (Checked.apply (Checked.apply (.ok RunRecord.mk)
    (withDefault "id" id text es))
    (required "flow_id" text es))
    (required "name" text es))
    (required "status" (oneOf Status.words) es))
    (withDefault "trigger" .manual (oneOf Trigger.words) es))
    (required "started_at" moment es))
    (required "finished_at" moment es))
    (withDefault "log_lines" [] (listOf text) es))
    (withDefault "steps" [] (listOf (StepOutcome.ofDocument now)) es))
    (required "flow" Flow.ofDocument es)

end Cadence
