/-
What comes back of documents that are written down.

* `Codec.keeps`, `Codec.returns` — whether a document comes back as it was, and whether a
  run comes back, with null in place of the numbers that are not finite;
* `Codec.keeps_run` — a run comes back as it was if it comes back and no number of its
  outputs is lost;
* `Codec.IsLossless` — everything finite is written and comes back;
* `Table.toOption_readFlow`, `Table.toOption_readRun` — the flows and runs that are read
  from their documents.
-/
import Cadence.Proofs.Run.Reading
import Cadence.Proofs.Validation.Checked
import Cadence.Store.Table

namespace Cadence

/-! ### Outlines -/

/-- The times and the id of a stored flow are texts, so its outline is that of its definition. -/
theorem StoredFlow.outline_written (r : StoredFlow) :
    (Table.written r.toJson).outline = r.definition.toJson.dropNonFinite.outline := by
  cases hlast : r.lastRunAt with
  | none =>
    unfold Table.written StoredFlow.toJson
    rw [hlast]
    rfl
  | some m =>
    unfold Table.written StoredFlow.toJson
    rw [hlast]
    rfl

/-- Whether a flow is switched on does not show in its outline. -/
theorem Flow.outline_setEnabled (f : Flow) (enabled : Bool) :
    ({ f with enabled := enabled } : Flow).toJson.dropNonFinite.outline =
      f.toJson.dropNonFinite.outline := rfl

/-! ### What comes back -/

namespace Codec

variable {c : Codec}

/-- Whether the document of a run can be written down. -/
def writes (c : Codec) (run : RunRecord) : Bool := (c.unwritable? run.toJson).isNone

/-- Whether what was written down of a document can be read. -/
def reads (c : Codec) (v : Json) : Bool := (c.unreadable? v.dropNonFinite.outline).isNone

/-- Whether a document comes back as it was. -/
def keeps (c : Codec) (v : Json) : Bool := v.allFinite && c.reads v

/-- Whether a run comes back, with null in place of the numbers of its outputs that are not
finite. -/
def returns (c : Codec) (run : RunRecord) : Bool := run.flow.toJson.allFinite && c.reads run.toJson

theorem keeps_setEnabled (f : Flow) (enabled : Bool) :
    c.keeps ({ f with enabled := enabled } : Flow).toJson = c.keeps f.toJson := by
  unfold keeps reads
  rw [Flow.outline_setEnabled, Flow.allFinite_toJson, Flow.allFinite_toJson]

/-- A run comes back as it was if it comes back and no number of its outputs is lost. -/
theorem keeps_run {run : RunRecord} :
    c.keeps run.toJson = true ↔ run.filed = run ∧ c.returns run = true := by
  unfold keeps returns
  rw [RunRecord.allFinite_toJson, RunRecord.filed_eq_self]
  simp only [Bool.and_eq_true, and_assoc]

/-- A codec that writes and reads everything that holds only finite numbers. -/
def IsLossless (c : Codec) : Prop :=
  ∀ v : Json, v.allFinite = true → c.unwritable? v = none ∧ c.unreadable? v.outline = none

theorem exact_isLossless : exact.IsLossless := fun _ _ => ⟨rfl, rfl⟩

theorem IsLossless.writes (h : c.IsLossless) {run : RunRecord}
    (hfinite : run.toJson.allFinite = true) :
    c.unwritable? run.toJson = none := (h _ hfinite).1

theorem IsLossless.reads (h : c.IsLossless) (v : Json) : c.reads v = true := by
  unfold Codec.reads
  rw [(h _ (Json.allFinite_dropNonFinite v)).2]
  rfl

theorem IsLossless.keeps_eq (h : c.IsLossless) (v : Json) : c.keeps v = v.allFinite := by
  unfold keeps
  rw [h.reads, Bool.and_true]

end Codec

namespace Table

theorem toOption_parse (codec : Codec) (v : Json) :
    (parse codec (written v)).toOption = if codec.reads v then some (Document.filed v)
      else none := by
  unfold parse Codec.reads
  show _ = if (codec.unreadable? (written v).outline).isNone then _ else _
  cases codec.unreadable? (written v).outline <;> rfl

/-- A stored flow is read back if its document comes back as it was, and refused otherwise. -/
theorem toOption_readFlow (codec : Codec) {r : StoredFlow} (h : r.WellFormed) :
    (readFlow codec (written r.toJson)).toOption =
      if codec.keeps r.definition.toJson then some r else none := by
  have hsame : codec.reads r.toJson = codec.reads r.definition.toJson :=
    congrArg (fun v => (codec.unreadable? v).isNone) r.outline_written
  unfold readFlow Codec.keeps
  rw [toOption_bind, toOption_parse, hsame]
  cases codec.reads r.definition.toJson with
  | true =>
    rw [Bool.and_true]
    exact (toOption_mapError _ _).trans (StoredFlow.toOption_ofDocument h)
  | false =>
    rw [Bool.and_false]
    rfl

/-- What is left of a record is read back if it comes back, and refused otherwise. -/
theorem toOption_readRun (codec : Codec) {r : RunRecord} (h : r.WellFormed) :
    (readRun codec (written r.toJson)).toOption = if codec.returns r then some r.filed
      else none := by
  unfold readRun Codec.returns
  rw [toOption_bind, toOption_parse]
  cases codec.reads r.toJson with
  | true =>
    rw [Bool.and_true]
    exact (toOption_mapError _ _).trans (RunRecord.toOption_ofDocument _ _ h)
  | false =>
    rw [Bool.and_false]
    rfl

end Table

end Cadence
