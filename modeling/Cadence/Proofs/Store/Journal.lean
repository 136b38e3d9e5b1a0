/-
What a store was asked, and what its answers make of a flow.

A journal lists requests in the order in which they were made, each with the answer that it
got.  What is to be expected of a flow can be read off the journal alone: only the requests
that were answered count, and each of them concerns one part of the flow.

* `Operation.edit` — the definition of a flow, and what goes with it, after a request;
* `Operation.lastRun` — the end of the latest run since the flow was created;
* `Operation.appended` — all runs since the flow was last removed, the latest one first;
* `Journal.edited`, `Journal.lastRun`, `Journal.appended` — the same after a whole journal.
-/
import Mathlib.Tactic.Common
import Cadence.Proofs.Run.Reading
import Cadence.Store.Basic

namespace Cadence

open Calendar

/-! ### Requests -/

/-- A request whose flow or record is well-formed. -/
def Operation.WellFormed : Operation → Prop
  | .create f => f.WellFormed
  | .revise _ f => f.WellFormed
  | .append run => run.WellFormed
  | _ => True

/-- Whether all numbers of a request are finite. -/
def Operation.isFinite : Operation → Bool
  | .create f => f.toJson.allFinite
  | .revise _ f => f.toJson.allFinite
  | .append run => run.toJson.allFinite
  | _ => true

/-- What becomes of the definition of a flow. -/
def Operation.edit (now : Moment) (id : String) (r : Option StoredFlow) :
    Operation → Option StoredFlow
  | .create f => if f.id = id then some (.new f now) else r
  | .revise i f => if i = id then r.map (·.revise i f now) else r
  | .setEnabled i enabled => if i = id then r.map (·.setEnabled enabled now) else r
  | .remove i => if i = id then none else r
  | _ => r

/-- What becomes of the end of the latest run of a flow. -/
def Operation.lastRun (id : String) (last : Option Moment) : Operation → Option Moment
  | .create f => if f.id = id then none else last
  | .append run => if run.flowId = id then some run.finishedAt else last
  | _ => last

/-- What becomes of the runs of a flow, whether it is stored or not. -/
def Operation.appended (id : String) (runs : List RunRecord) : Operation → List RunRecord
  | .remove i => if i = id then [] else runs
  | .append run => if run.flowId = id then run :: runs else runs
  | _ => runs

/-- A request that only asks. -/
def Operation.OnlyAsks : Operation → Prop
  | .find _ => True
  | .isEnabled _ => True
  | .all => True
  | .runs _ _ => True
  | _ => False

section

variable {op : Operation}

theorem Operation.OnlyAsks.edit (h : op.OnlyAsks) (now : Moment) (id : String)
    (r : Option StoredFlow) :
    op.edit now id r = r := by
  cases op with
  | find i => rfl
  | isEnabled i => rfl
  | all => rfl
  | runs i limit => rfl
  | _ => exact h.elim

theorem Operation.OnlyAsks.lastRun (h : op.OnlyAsks) (id : String) (last : Option Moment) :
    op.lastRun id last = last := by
  cases op with
  | find i => rfl
  | isEnabled i => rfl
  | all => rfl
  | runs i limit => rfl
  | _ => exact h.elim

end

/-! ### Journals -/

/-- A request and its answer. -/
structure Entry where
  now : Moment
  operation : Operation
  answer : Except StoreFault Answer
  deriving Inhabited, Repr

/-- Whether a request was answered. -/
def Entry.isAnswered (e : Entry) : Bool := e.answer.toOption.isSome

/-- What an entry makes of the definition of a flow. -/
def Entry.edit (id : String) (r : Option StoredFlow) (e : Entry) : Option StoredFlow :=
  if e.isAnswered then e.operation.edit e.now id r else r

/-- What an entry makes of the end of the latest run of a flow. -/
def Entry.lastRun (id : String) (last : Option Moment) (e : Entry) : Option Moment :=
  if e.isAnswered then e.operation.lastRun id last else last

/-- What an entry makes of the runs of a flow. -/
def Entry.appended (id : String) (runs : List RunRecord) (e : Entry) : List RunRecord :=
  if e.isAnswered then e.operation.appended id runs else runs

/-- Requests and their answers, in order. -/
abbrev Journal := List Entry

namespace Journal

/-- The definition of a flow after the requests of a journal. -/
def edited (id : String) (before : Option StoredFlow) (j : Journal) : Option StoredFlow :=
  j.foldl (Entry.edit id) before

/-- The end of the latest run of a flow after the requests of a journal. -/
def lastRun (id : String) (before : Option Moment) (j : Journal) : Option Moment :=
  j.foldl (Entry.lastRun id) before

/-- The runs of a flow after the requests of a journal, the latest one first. -/
def appended (id : String) (before : List RunRecord) (j : Journal) : List RunRecord :=
  j.foldl (Entry.appended id) before

end Journal

/-- A stored flow with another end of its latest run. -/
def StoredFlow.withLastRun (r : StoredFlow) (last : Option Moment) : StoredFlow :=
  { r with lastRunAt := last }

/-- A flow that gets another definition under an id that is not empty goes by that id. -/
theorem StoredFlow.revise_id (r : StoredFlow) {id : String} (h : id ≠ "") (f : Flow)
    (now : Moment) :
    (r.revise id f now).id = id := by
  show (if id.isEmpty then f.id else id) = id
  rw [isEmpty_eq_false h]
  rfl

/-! ### What requests preserve -/

section

variable {now : Moment} {id : String} {op : Operation}

/-- Everything that a request can make of the definition of a flow. -/
theorem Operation.edit_cases (op : Operation) (now : Moment) (id : String) (r : Option StoredFlow) :
    op.edit now id r = r ∨
    (∃ f, op = .create f ∧ f.id = id ∧ op.edit now id r = some (.new f now)) ∨
    (∃ f, op = .revise id f ∧ op.edit now id r = r.map (·.revise id f now)) ∨
    (∃ enabled, op = .setEnabled id enabled ∧ op.edit now id r = r.map (·.setEnabled enabled now)) ∨
    (op = .remove id ∧ op.edit now id r = none) := by
  cases op with
  | create f =>
    by_cases hid : f.id = id
    · exact .inr (.inl ⟨f, rfl, hid, by simp only [Operation.edit, if_pos hid]⟩)
    · exact .inl (by simp only [Operation.edit, if_neg hid])
  | revise i f =>
    by_cases hid : i = id
    · subst hid
      exact .inr (.inr (.inl ⟨f, rfl, by simp only [Operation.edit, if_pos]⟩))
    · exact .inl (by simp only [Operation.edit, if_neg hid])
  | setEnabled i enabled =>
    by_cases hid : i = id
    · exact .inr
        (.inr
        (.inr (.inl ⟨enabled, by rw [hid], by simp only [Operation.edit, if_pos hid]⟩)))
    · exact .inl (by simp only [Operation.edit, if_neg hid])
  | remove i =>
    by_cases hid : i = id
    · exact .inr (.inr (.inr (.inr ⟨by rw [hid], by simp only [Operation.edit, if_pos hid]⟩)))
    · exact .inl (by simp only [Operation.edit, if_neg hid])
  | _ => exact .inl rfl

/-- Everything that a request can make of the end of the latest run. -/
theorem Operation.lastRun_cases (op : Operation) (id : String) (last : Option Moment) :
    op.lastRun id last = last ∨
    (∃ f, op = .create f ∧ f.id = id ∧ op.lastRun id last = none) ∨
    (∃ run, op = .append run ∧ run.flowId = id ∧ op.lastRun id last = some run.finishedAt) := by
  cases op with
  | create f =>
    by_cases hid : f.id = id
    · exact .inr (.inl ⟨f, rfl, hid, by simp only [Operation.lastRun, if_pos hid]⟩)
    · exact .inl (by simp only [Operation.lastRun, if_neg hid])
  | append run =>
    by_cases hid : run.flowId = id
    · exact .inr (.inr ⟨run, rfl, hid, by simp only [Operation.lastRun, if_pos hid]⟩)
    · exact .inl (by simp only [Operation.lastRun, if_neg hid])
  | _ => exact .inl rfl

/-- Everything that a request can make of the runs of a flow. -/
theorem Operation.appended_cases (op : Operation) (id : String) (runs : List RunRecord) :
    op.appended id runs = runs ∨
    (op = .remove id ∧ op.appended id runs = []) ∨
    (∃ run, op = .append run ∧ run.flowId = id ∧ op.appended id runs = run :: runs) := by
  cases op with
  | remove i =>
    by_cases hid : i = id
    · exact .inr (.inl ⟨by rw [hid], by simp only [Operation.appended, if_pos hid]⟩)
    · exact .inl (by simp only [Operation.appended, if_neg hid])
  | append run =>
    by_cases hid : run.flowId = id
    · exact .inr (.inr ⟨run, rfl, hid, by simp only [Operation.appended, if_pos hid]⟩)
    · exact .inl (by simp only [Operation.appended, if_neg hid])
  | _ => exact .inl rfl

/-- What holds of a flow when it is created, and stays so under edits, holds after each request. -/
theorem Operation.edit_preserves {P : StoredFlow → Prop} {r : Option StoredFlow}
    (hcreate : ∀ f, op = .create f → f.id = id → P (.new f now))
    (hrevise : ∀ f g, op = .revise id f → P g → P (g.revise id f now))
    (hsetEnabled : ∀ enabled g, P g → P (g.setEnabled enabled now))
    (hr : ∀ g, r = some g → P g) : ∀ g, op.edit now id r = some g → P g := by
  intro g hg
  obtain h | ⟨f, hop, hid, h⟩ | ⟨f, hop, h⟩ | ⟨enabled, _, h⟩ | ⟨_, h⟩ := op.edit_cases now id r
  · exact hr g (h.symm.trans hg)
  · obtain rfl := Option.some_inj.mp (h.symm.trans hg)
    exact hcreate f hop hid
  · obtain ⟨g', hg', rfl⟩ := Option.map_eq_some_iff.mp (h.symm.trans hg)
    exact hrevise f g' hop (hr g' hg')
  · obtain ⟨g', hg', rfl⟩ := Option.map_eq_some_iff.mp (h.symm.trans hg)
    exact hsetEnabled enabled g' (hr g' hg')
  · cases h.symm.trans hg

/-- What holds of the end of every run that is stored holds of the end of the latest run. -/
theorem Operation.lastRun_preserves {P : Moment → Prop} {last : Option Moment}
    (hrun : ∀ run, op = .append run → P run.finishedAt) (hlast : ∀ t, last = some t → P t) :
    ∀ t, op.lastRun id last = some t → P t := by
  intro t ht
  obtain h | ⟨_, _, _, h⟩ | ⟨run, hop, _, h⟩ := op.lastRun_cases id last
  · exact hlast t (h.symm.trans ht)
  · cases h.symm.trans ht
  · obtain rfl := Option.some_inj.mp (h.symm.trans ht)
    exact hrun run hop

/-- What holds of every run of a flow that is stored holds of all its runs. -/
theorem Operation.appended_preserves {P : RunRecord → Prop} {runs : List RunRecord}
    (hrun : ∀ run, op = .append run → run.flowId = id → P run) (hruns : ∀ run ∈ runs, P run) :
    ∀ run ∈ op.appended id runs, P run := by
  intro run hmem
  obtain h | ⟨_, h⟩ | ⟨run', hop, hid, h⟩ := op.appended_cases id runs
  · exact hruns run (h ▸ hmem)
  · rw [h] at hmem
    cases hmem
  · rw [h] at hmem
    rcases List.mem_cons.mp hmem with rfl | hmem
    · exact hrun run hop hid
    · exact hruns run hmem

end

/-! ### Well-formed flows stay well-formed -/

theorem Flow.WellFormed.setEnabled {f : Flow} (h : f.WellFormed) (enabled : Bool) :
    ({ f with enabled := enabled } : Flow).WellFormed :=
  ⟨h.name, h.steps, h.breach⟩

theorem Flow.WellFormed.id_ne {f : Flow} (h : f.WellFormed) : f.id ≠ "" := by
  intro hid
  have hb := h.breach
  rw [Flow.breach?, hid] at hb
  cases hb

theorem StoredFlow.new_wellFormed {f : Flow} (h : f.WellFormed) {now : Moment}
    (hnow : now.WellFormed) :
    (StoredFlow.new f now).WellFormed :=
  ⟨h, hnow, hnow, fun _ he => by cases he⟩

theorem StoredFlow.WellFormed.revise {r : StoredFlow} (hr : r.WellFormed) {f : Flow}
    (h : f.WellFormed) {now : Moment} (hnow : now.WellFormed) (id : String) :
    (r.revise id f now).WellFormed :=
  ⟨h, hr.createdAt, hnow, hr.lastRunAt⟩

theorem StoredFlow.WellFormed.setEnabled {r : StoredFlow} (hr : r.WellFormed) (enabled : Bool)
    {now : Moment} (hnow : now.WellFormed) : (r.setEnabled enabled now).WellFormed :=
  ⟨hr.definition.setEnabled enabled, hr.createdAt, hnow, hr.lastRunAt⟩

theorem StoredFlow.WellFormed.ranAt {r : StoredFlow} (hr : r.WellFormed) {m : Moment}
    (hm : m.WellFormed) :
    (r.ranAt m).WellFormed :=
  ⟨hr.definition, hr.createdAt, hr.updatedAt, fun _ he => Option.some_inj.mp he ▸ hm⟩

/-! ### A small flow -/

/-- A flow without steps. -/
def Flow.bare (name : String) : Flow := ⟨name, "", true, []⟩

theorem Flow.bare_wellFormed {name : String} (hname : name ≠ "")
    (hid : (Flow.bare name).id.isEmpty = false) :
    (Flow.bare name).WellFormed where
  name := hname
  steps := fun _ h => by cases h
  breach := by
    unfold Flow.breach?
    rw [hid]
    rfl

end Cadence
