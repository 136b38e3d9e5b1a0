/-
Stored flows and run records read back from what was written down.

* `StoredFlow.WellFormed`, `RunRecord.WellFormed` — records whose moments ISO notation can
  express and whose flow is well-formed;
* `RunRecord.filed` — what is left of a record in a file: in the outputs of its steps, null
  stands in place of every number that is not finite;
* `StoredFlow.toOption_ofDocument` — a stored flow is read back as it was if it is finite,
  and refused otherwise;
* `RunRecord.toOption_ofDocument` — of a record, what is left in the file is read back if
  its flow is finite, and the record is refused otherwise.
-/
import Cadence.Proofs.Calendar.Notation
import Cadence.Proofs.Flow.Reading

namespace Cadence

open Validation Document Calendar

/-! ### Well-formed records -/

/-- A stored flow whose moments ISO notation can express and whose definition is well-formed. -/
structure StoredFlow.WellFormed (r : StoredFlow) : Prop where
  definition : r.definition.WellFormed
  createdAt : r.createdAt.WellFormed
  updatedAt : r.updatedAt.WellFormed
  lastRunAt : ∀ m, r.lastRunAt = some m → m.WellFormed

/-- A record whose moments ISO notation can express and whose flow is well-formed. -/
structure RunRecord.WellFormed (r : RunRecord) : Prop where
  startedAt : r.startedAt.WellFormed
  finishedAt : r.finishedAt.WellFormed
  steps : ∀ o ∈ r.steps, o.time.WellFormed
  flow : r.flow.WellFormed

/-! ### Moments -/

theorem moment_filed {m : Moment} (h : m.WellFormed) : moment (filed (momentToJson m)) = .ok m :=
  momentOfText_isoText h

theorem optional_moment_filed {m? : Option Moment} (h : ∀ m, m? = some m → m.WellFormed) :
    (optional moment (filed (moment?ToJson m?))).toOption = some m? := by
  cases m? with
  | none => rfl
  | some m =>
    show ((moment (filed (momentToJson m))).map some).toOption = _
    rw [moment_filed (h m rfl)]
    rfl

/-! ### Stored flows -/

/-- **A well-formed stored flow is read back if it is finite, and refused otherwise.** -/
theorem StoredFlow.toOption_ofDocument {r : StoredFlow} (h : r.WellFormed) :
    (StoredFlow.ofDocument (filed r.toJson)).toOption =
      if r.definition.toJson.allFinite then some r else none := by
  let es := filedFields (r.definition.fields ++ [
    ("id", .str r.id), ("created_at", momentToJson r.createdAt),
    ("updated_at", momentToJson r.updatedAt), ("last_run_at", moment?ToJson r.lastRunAt)])
  -- each field is read on its own; only the definition can fail, and it fails with its numbers
  let make (f : Flow) (id : String) (createdAt updatedAt : Moment)
      (lastRunAt : Option Moment) : StoredFlow :=
    ⟨id, f, createdAt, updatedAt, lastRunAt⟩
  have hflow : (Flow.ofEntries es).toOption = if r.definition.toJson.allFinite
      then some r.definition else none :=
    Flow.toOption_ofEntries h.definition rfl rfl rfl rfl
  have hid : (required "id" text es).toOption = some r.id :=
    toOption_required (v := .str r.id) rfl _
  have hcreated : (required "created_at" moment es).toOption = some r.createdAt :=
    (toOption_required (v := filed (momentToJson r.createdAt)) rfl _).trans
      (congrArg Except.toOption (moment_filed h.createdAt))
  have hupdated : (required "updated_at" moment es).toOption = some r.updatedAt :=
    (toOption_required (v := filed (momentToJson r.updatedAt)) rfl _).trans
      (congrArg Except.toOption (moment_filed h.updatedAt))
  have hlast : (withDefault "last_run_at" none (optional moment) es).toOption = some r.lastRunAt :=
    (toOption_withDefault (v := filed (moment?ToJson r.lastRunAt)) rfl _ _).trans
      (optional_moment_filed h.lastRunAt)
  show (Checked.apply (Checked.apply (Checked.apply (Checked.apply (Checked.apply (.ok make)
    (Flow.ofEntries es)) (required "id" text es)) (required "created_at" moment es))
    (required "updated_at" moment es)) (withDefault "last_run_at" none (optional moment) es) >>=
      fun r => r.definition.checked >>= fun _ => pure r).toOption = _
  simp only [toOption_bind, Checked.toOption_apply, hflow, hid, hcreated, hupdated,
    hlast, toOption_ok]
  by_cases hf : r.definition.toJson.allFinite = true
  · rw [if_pos hf, if_pos hf]
    simp only [Option.bind_some, Option.map_some, make,
      Flow.checked_of_wellFormed h.definition, toOption_ok]
    rfl
  · rw [if_neg hf, if_neg hf]
    rfl

/-! ### Outcomes of steps -/

/-- What is left of an outcome in a file. -/
def StepOutcome.filed (o : StepOutcome) : StepOutcome := { o with output := o.output.dropNonFinite }

theorem StepOutcome.toOption_ofDocument (now : Moment) {o : StepOutcome} (h : o.time.WellFormed) :
    (StepOutcome.ofDocument now (Document.filed o.toJson)).toOption = some o.filed := by
  let es := filedFields [
    ("step_id", .str o.label), ("output", o.output), ("error", Json.ofText? o.error),
    ("timestamp", momentToJson o.time)]
  have hlabel : (required "step_id" text es).toOption = some o.label :=
    toOption_required (v := .str o.label) rfl _
  have houtput : (withDefault "output" .null (fun v => .ok v.toJson) es).toOption =
      some o.output.dropNonFinite :=
    (toOption_withDefault (v := Document.filed o.output) rfl _ _).trans
      (congrArg some (toJson_ofJson _))
  have herror : (withDefault "error" none (optional text) es).toOption = some o.error :=
    (toOption_withDefault (v := Document.filed (Json.ofText? o.error)) rfl _ _).trans
      (optional_filed_ofText? _)
  have htime : (withDefault "timestamp" now moment es).toOption = some o.time :=
    (toOption_withDefault (v := Document.filed (momentToJson o.time)) rfl _ _).trans
      (congrArg Except.toOption (moment_filed h))
  show (Checked.apply (Checked.apply (Checked.apply (Checked.apply (.ok StepOutcome.mk)
    (required "step_id" text es)) (withDefault "output" .null (fun v => .ok v.toJson) es))
    (withDefault "error" none (optional text) es))
      (withDefault "timestamp" now moment es)).toOption = _
  simp only [Checked.toOption_apply, hlabel, houtput, herror, htime, toOption_ok]
  rfl

theorem StepOutcome.filed_eq_self {o : StepOutcome} : o.filed = o ↔ o.output.allFinite = true := by
  rw [← Json.dropNonFinite_eq_self]
  constructor
  · intro h
    exact congrArg StepOutcome.output h
  · intro h
    rw [StepOutcome.filed, h]

/-! ### Records of runs -/

/-- What is left of a record in a file. -/
def RunRecord.filed (r : RunRecord) : RunRecord := { r with steps := r.steps.map StepOutcome.filed }

theorem listOf_outcomes (now : Moment) {os : List StepOutcome} (h : ∀ o ∈ os, o.time.WellFormed) :
    (listOf (StepOutcome.ofDocument now)
      (Document.filed (.arr (os.map StepOutcome.toJson)))).toOption =
      some (os.map StepOutcome.filed) := by
  rw [toOption_listOf, mapM_congr fun o ho => StepOutcome.toOption_ofDocument now (h o ho)]
  exact (mapM_ite (fun _ => true) StepOutcome.filed os).trans (by simp)

/-- **Of a well-formed record, what is left in the file is read back if its flow is finite, and the
record is refused otherwise.** -/
theorem RunRecord.toOption_ofDocument (id : String) (now : Moment) {r : RunRecord}
    (h : r.WellFormed) :
    (RunRecord.ofDocument id now (Document.filed r.toJson)).toOption =
      if r.flow.toJson.allFinite then some r.filed else none := by
  let es := filedFields [
    ("id", .str r.id), ("flow_id", .str r.flowId), ("name", .str r.name),
    ("status", .str r.status.word),
    ("trigger", .str r.trigger.word), ("started_at", momentToJson r.startedAt),
    ("finished_at", momentToJson r.finishedAt), ("log_lines", .arr (r.log.map .str)),
    ("steps", .arr (r.steps.map StepOutcome.toJson)), ("flow", r.flow.toJson)]
  -- one field after the other; only the flow can fail, since outputs may be anything
  have hid : (withDefault "id" id text es).toOption = some r.id :=
    toOption_withDefault (v := .str r.id) rfl _ _
  have hflowId : (required "flow_id" text es).toOption = some r.flowId :=
    toOption_required (v := .str r.flowId) rfl _
  have hname : (required "name" text es).toOption = some r.name :=
    toOption_required (v := .str r.name) rfl _
  have hstatus : (required "status" (oneOf Status.words) es).toOption = some r.status := by
    rw [toOption_required (v := .str r.status.word) rfl]
    cases r.status <;> rfl
  have htrigger : (withDefault "trigger" .manual (oneOf Trigger.words) es).toOption =
      some r.trigger := by
    rw [toOption_withDefault (v := .str r.trigger.word) rfl]
    cases r.trigger <;> rfl
  have hstarted : (required "started_at" moment es).toOption = some r.startedAt :=
    (toOption_required (v := Document.filed (momentToJson r.startedAt)) rfl _).trans
      (congrArg Except.toOption (moment_filed h.startedAt))
  have hfinished : (required "finished_at" moment es).toOption = some r.finishedAt :=
    (toOption_required (v := Document.filed (momentToJson r.finishedAt)) rfl _).trans
      (congrArg Except.toOption (moment_filed h.finishedAt))
  have hlog : (withDefault "log_lines" [] (listOf text) es).toOption = some r.log :=
    (toOption_withDefault (v := Document.filed (.arr (r.log.map .str))) rfl _ _).trans
      (listOf_text r.log)
  have hsteps : (withDefault "steps" [] (listOf (StepOutcome.ofDocument now)) es).toOption =
      some (r.steps.map StepOutcome.filed) :=
    (toOption_withDefault (v := Document.filed (.arr (r.steps.map StepOutcome.toJson)))
      rfl _ _).trans
      (listOf_outcomes now h.steps)
  have hflow : (required "flow" Flow.ofDocument es).toOption =
      if r.flow.toJson.allFinite then some r.flow else none :=
    (toOption_required (v := Document.filed r.flow.toJson) rfl _).trans
      (Flow.toOption_ofDocument h.flow)
  show (Checked.apply (Checked.apply (Checked.apply (Checked.apply (Checked.apply (Checked.apply
    (Checked.apply (Checked.apply (Checked.apply (Checked.apply (.ok RunRecord.mk)
    (withDefault "id" id text es)) (required "flow_id" text es)) (required "name" text es))
    (required "status" (oneOf Status.words) es))
      (withDefault "trigger" .manual (oneOf Trigger.words) es))
    (required "started_at" moment es)) (required "finished_at" moment es))
    (withDefault "log_lines" [] (listOf text) es))
    (withDefault "steps" [] (listOf (StepOutcome.ofDocument now)) es))
    (required "flow" Flow.ofDocument es)).toOption = _
  simp only [Checked.toOption_apply, hid, hflowId, hname, hstatus, htrigger, hstarted,
    hfinished, hlog, hsteps, hflow, toOption_ok]
  by_cases hf : r.flow.toJson.allFinite = true
  · rw [if_pos hf, if_pos hf]
    rfl
  · rw [if_neg hf, if_neg hf]
    rfl

theorem RunRecord.allFinite_toJson (r : RunRecord) :
    r.toJson.allFinite =
      ((r.steps.all fun o => o.output.allFinite) && r.flow.toJson.allFinite) := by
  have hstep : (fun o : StepOutcome => o.toJson.allFinite) = fun o => o.output.allFinite := by
    funext o
    simp [StepOutcome.toJson, Json.allFinite, Json.membersFinite, ofText?_allFinite, momentToJson]
  simp [RunRecord.toJson, Json.allFinite, Json.membersFinite, Json.itemsFinite_eq, List.all_map,
    Function.comp_def, momentToJson, hstep]

/-- A record is left as it is exactly if the outputs of its steps are finite. -/
theorem RunRecord.filed_eq_self {r : RunRecord} :
    r.filed = r ↔ (r.steps.all fun o => o.output.allFinite) = true := by
  have hmap : r.filed = r ↔ r.steps.map StepOutcome.filed = r.steps := by
    constructor
    · intro h
      exact congrArg RunRecord.steps h
    · intro h
      rw [RunRecord.filed, h]
  rw [hmap, List.all_eq_true]
  constructor
  · intro h o ho
    exact StepOutcome.filed_eq_self.mp (List.map_inj_left.mp (h.trans (List.map_id _).symm) o ho)
  · intro h
    rw [List.map_congr_left fun o ho => StepOutcome.filed_eq_self.mpr (h o ho)]
    exact List.map_id _

end Cadence
