/-
Edits and runs of a flow that stays.

While a flow is neither created anew nor removed, requests of two kinds concern it: edits,
which leave its history and the end of its latest run alone, and runs, which leave
everything else alone.

* `Journal.changed` — a flow after the edits of a journal, and nothing but the edits;
* `Journal.putUnder` — the runs that a journal put into the history of a flow, in order;
* `Journal.stored_of_spares` — the flow that is stored after requests that spare it is the
  changed one, with the end of the run that was put into its history last;
* `Store.Holds.spares` — every store spares the flows that it can read.
-/
import Cadence.Proofs.Store.Following

namespace Cadence

open Calendar

/-! ### Journals -/

/-- The flow that is stored under an id after the requests of a journal. -/
def Journal.stored (j : Journal) (id : String) : Option StoredFlow :=
  (j.edited id none).map (·.withLastRun (j.lastRun id none))

theorem Journal.stored_append (j : Journal) (e : Entry) (id : String) :
    (j ++ [e] : Journal).stored id =
      (e.edit id (j.edited id none)).map (·.withLastRun (e.lastRun id (j.lastRun id none))) := by
  rw [Journal.stored, Journal.edited, Journal.lastRun, List.foldl_append, List.foldl_append]
  rfl

/-- A flow in memory is the one that the requests left behind. -/
theorem Memory.Follows.stored {limit : Nat} {j : Journal} {m : Memory}
    (h : (Memory.empty limit).Follows j m) (id : String) :
    m.flows.lookup id = j.stored id :=
  h.flow id none none rfl

/-- Whether a request may change a flow, the end of its latest run or its history. -/
def Operation.Concerns (id : String) : Operation → Prop
  | .create f => f.id = id
  | .revise i _ => i = id
  | .setEnabled i _ => i = id
  | .remove i => i = id
  | .append run => run.flowId = id
  | _ => False

/-- What does not concern a flow leaves it as it is. -/
theorem Operation.edit_of_not_concerns {op : Operation} {id : String} (h : ¬ op.Concerns id)
    (now : Moment) (r : Option StoredFlow) : op.edit now id r = r := by
  obtain hedit | ⟨f, rfl, hid, _⟩ | ⟨f, rfl, _⟩ | ⟨enabled, rfl, _⟩ | ⟨rfl, _⟩ :=
    op.edit_cases now id r
  · exact hedit
  · exact absurd hid h
  · exact absurd rfl h
  · exact absurd rfl h
  · exact absurd rfl h

theorem Operation.lastRun_of_not_concerns {op : Operation} {id : String} (h : ¬ op.Concerns id)
    (last : Option Moment) : op.lastRun id last = last := by
  obtain hlast | ⟨f, rfl, hid, _⟩ | ⟨run, rfl, hid, _⟩ := op.lastRun_cases id last
  · exact hlast
  · exact absurd hid h
  · exact absurd hid h

/-- What is refused or does not concern a flow leaves it as it is. -/
theorem Journal.stored_of_idle {j : Journal} {e : Entry} {id : String}
    (h : e.operation.Concerns id → e.isAnswered = false) :
    (j ++ [e] : Journal).stored id = j.stored id := by
  have hedit : e.edit id (j.edited id none) = j.edited id none := by
    unfold Entry.edit
    split
    · rename_i hanswered
      exact Operation.edit_of_not_concerns
        (fun hc => by rw [h hc] at hanswered; cases hanswered) _ _
    · rfl
  have hlast : e.lastRun id (j.lastRun id none) = j.lastRun id none := by
    unfold Entry.lastRun
    split
    · rename_i hanswered
      exact Operation.lastRun_of_not_concerns
        (fun hc => by rw [h hc] at hanswered; cases hanswered) _
    · rfl
  rw [j.stored_append, hedit, hlast]
  rfl

/-- Whether a request edits a flow: gives it another definition, or switches it on or off. -/
def Operation.Edits (id : String) : Operation → Prop
  | .revise i _ => i = id
  | .setEnabled i _ => i = id
  | _ => False

/-- What an edit makes of a flow. -/
def Entry.change (id : String) (f : StoredFlow) (e : Entry) : StoredFlow :=
  match e.operation with
  | .revise i g => if i = id then f.revise i g e.now else f
  | .setEnabled i enabled => if i = id then f.setEnabled enabled e.now else f
  | _ => f

/-- A flow after the edits of a journal. -/
def Journal.changed (id : String) (f : StoredFlow) (j : Journal) : StoredFlow :=
  j.foldl (Entry.change id) f

/-- The run that a request put into a history. -/
def Entry.put? (e : Entry) : Option RunRecord :=
  match e.operation with
  | .append r => if e.isAnswered then some r else none
  | _ => none

/-- The runs that a journal put into the history of a flow, in order. -/
def Journal.putUnder (id : String) (j : Journal) : List RunRecord :=
  (j.filterMap Entry.put?).filter fun r => r.flowId = id

theorem Entry.put?_some {e : Entry} {r : RunRecord} :
    e.put? = some r ↔ e.operation = .append r ∧ e.isAnswered = true := by
  unfold Entry.put?
  split
  · rename_i run hop
    rw [hop]
    split
    · rename_i hanswered
      simp [hanswered]
    · rename_i hanswered
      simp [hanswered]
  · rename_i hop
    constructor
    · intro h
      cases h
    · intro h
      exact absurd h.1 (hop r)

theorem Entry.change_id {f : StoredFlow} (h : f.id ≠ "") (e : Entry) :
    (e.change f.id f).id = f.id := by
  unfold Entry.change
  split
  · split
    · rename_i hid
      subst hid
      exact StoredFlow.revise_id f h _ _
    · rfl
  · split <;> rfl
  · rfl

theorem Entry.change_createdAt (id : String) (f : StoredFlow) (e : Entry) :
    (e.change id f).createdAt = f.createdAt := by
  unfold Entry.change
  split
  · split <;> rfl
  · split <;> rfl
  · rfl

theorem Entry.change_withLastRun (id : String) (f : StoredFlow) (last : Option Moment) (e : Entry) :
    e.change id (f.withLastRun last) = (e.change id f).withLastRun last := by
  unfold Entry.change
  split
  · split <;> rfl
  · split <;> rfl
  · rfl

namespace Journal

/-- Edits keep the id of a flow and the moment of its creation. -/
theorem changed_same {f : StoredFlow} (h : f.id ≠ "") (j : Journal) :
    (j.changed f.id f).id = f.id ∧ (j.changed f.id f).createdAt = f.createdAt := by
  induction j generalizing f with
  | nil => exact ⟨rfl, rfl⟩
  | cons e j ih =>
    have hid := e.change_id h
    have hrest := @ih (e.change f.id f) (by rwa [hid])
    rw [hid, e.change_createdAt] at hrest
    exact hrest

theorem changed_withLastRun (id : String) (f : StoredFlow) (last : Option Moment) (j : Journal) :
    j.changed id (f.withLastRun last) = (j.changed id f).withLastRun last := by
  induction j generalizing f with
  | nil => rfl
  | cons e j ih =>
    show changed id (e.change id (f.withLastRun last)) j = _
    rw [e.change_withLastRun, ih]
    rfl

theorem putUnder_append (id : String) (j j' : Journal) :
    (j ++ j' : Journal).putUnder id = j.putUnder id ++ j'.putUnder id := by
  rw [putUnder, List.filterMap_append, List.filter_append]
  rfl

end Journal

/-! ### What is put into histories -/

namespace Entry

variable {e : Entry} {id : String}

/-- The end of the latest run is that of the run that is put in, if there is one. -/
theorem lastRun_eq (h : ∀ g, e.operation = .create g → g.id = id → e.isAnswered = false)
    (last : Option Moment) :
    e.lastRun id last = ((Journal.putUnder id [e]).getLast?.map (·.finishedAt)).or last := by
  obtain ⟨now, op, answer⟩ := e
  unfold Entry.lastRun Journal.putUnder
  cases op with
  | create f =>
    simp only [Operation.lastRun]
    by_cases hid : f.id = id
    · rw [h f rfl hid]
      rfl
    · rw [if_neg hid]
      exact ite_self _
  | append run =>
    simp only [Operation.lastRun, List.filterMap_cons, Entry.put?]
    split
    · by_cases hid : run.flowId = id
      · simp [hid]
      · simp [hid]
    · rfl
  | revise i f => exact ite_self _
  | setEnabled i enabled => exact ite_self _
  | remove i => exact ite_self _
  | find i => exact ite_self _
  | isEnabled i => exact ite_self _
  | all => exact ite_self _
  | runs i limit => exact ite_self _

/-- The run that is put in comes before those that were there. -/
theorem appended_eq (h : e.operation ≠ .remove id) (runs : List RunRecord) :
    e.appended id runs = (Journal.putUnder id [e]).reverse ++ runs := by
  obtain ⟨now, op, answer⟩ := e
  unfold Entry.appended Journal.putUnder
  cases op with
  | remove i =>
    simp only [Operation.appended]
    have hid : ¬ i = id := fun hid => h (congrArg Operation.remove hid)
    rw [if_neg hid]
    exact ite_self _
  | append run =>
    simp only [Operation.appended, List.filterMap_cons, Entry.put?]
    split
    · by_cases hid : run.flowId = id
      · simp [hid]
      · simp [hid]
    · rfl
  | create f => exact ite_self _
  | revise i f => exact ite_self _
  | setEnabled i enabled => exact ite_self _
  | find i => exact ite_self _
  | isEnabled i => exact ite_self _
  | all => exact ite_self _
  | runs i limit => exact ite_self _

/-- Only removing a flow makes it missing. -/
theorem edit_isSome (h : e.operation ≠ .remove id) {r : Option StoredFlow} (hr : r.isSome = true) :
    (e.edit id r).isSome = true := by
  unfold Entry.edit
  split
  · obtain hedit | ⟨f, _, _, hedit⟩ | ⟨f, _, hedit⟩ | ⟨enabled, _, hedit⟩ | ⟨hop, _⟩ :=
      e.operation.edit_cases e.now id r
    · rwa [hedit]
    · rw [hedit]
      rfl
    · rwa [hedit, Option.isSome_map]
    · rwa [hedit, Option.isSome_map]
    · exact absurd hop h
  · exact hr

end Entry

namespace Journal

variable {id : String} {j j' : Journal} {e : Entry} {r : RunRecord}

theorem putUnder_single (id : String) (e : Entry) :
    Journal.putUnder id [e] = e.put?.toList.filter fun r => r.flowId = id := by
  unfold Journal.putUnder
  rw [List.filterMap_cons]
  cases e.put? <;> rfl

/-- A run that is put into the history of a flow is its latest one. -/
theorem appended_put (hput : e.put? = some r) (hid : r.flowId = id) :
    (j ++ [e] : Journal).appended id [] = r :: j.appended id [] := by
  have hop : e.operation ≠ .remove id := by
    rw [(Entry.put?_some.mp hput).1]
    exact fun h => by cases h
  show List.foldl _ _ (j ++ [e]) = _
  rw [List.foldl_append]
  show e.appended id (j.appended id []) = _
  rw [Entry.appended_eq hop, putUnder_single, hput]
  simp [hid]

/-- Other requests leave the runs of a flow as they are, unless they remove it. -/
theorem appended_same (hop : e.operation ≠ .remove id)
    (hput : ∀ r, e.put? = some r → r.flowId ≠ id) :
    (j ++ [e] : Journal).appended id [] = j.appended id [] := by
  show List.foldl _ _ (j ++ [e]) = _
  rw [List.foldl_append]
  show e.appended id (j.appended id []) = _
  rw [Entry.appended_eq hop, putUnder_single]
  cases hrun : e.put? with
  | none => rfl
  | some r => simp [hput r hrun]

/-- A flow that is stored and never removed stays stored. -/
theorem stored_isSome (h : (j.stored id).isSome = true)
    (hkept : ∀ e ∈ j', e.operation ≠ .remove id) :
    ((j ++ j' : Journal).stored id).isSome = true := by
  induction j' generalizing j with
  | nil => rwa [List.append_nil]
  | cons e j' ih =>
    have hstep : ((j ++ [e] : Journal).stored id).isSome = true := by
      rw [stored_append, Option.isSome_map]
      refine Entry.edit_isSome (hkept e List.mem_cons_self) ?_
      rwa [stored, Option.isSome_map] at h
    have hrest := ih hstep fun e' he' => hkept e' (List.mem_cons_of_mem e he')
    rwa [List.append_assoc, List.singleton_append] at hrest

end Journal

/-! ### Sparing a flow -/

/-- A request that neither creates a flow nor removes it, and edits it unless it does not
concern it. -/
structure Entry.Spares (e : Entry) (id : String) : Prop where
  create : ∀ g, e.operation = .create g → g.id = id → e.isAnswered = false
  remove : e.operation ≠ .remove id
  edit : e.operation.Edits id → e.isAnswered = true

namespace Entry.Spares

variable {e : Entry} {id : String}

theorem edit_eq (h : e.Spares id) (g : StoredFlow) : e.edit id (some g) = some (e.change id g) := by
  obtain ⟨now, op, answer⟩ := e
  unfold Entry.edit Entry.change
  cases op with
  | create f =>
    simp only [Operation.edit]
    by_cases hid : f.id = id
    · rw [h.create f rfl hid]
      rfl
    · rw [if_neg hid, ite_self]
  | revise i f =>
    simp only [Operation.edit]
    by_cases hid : i = id
    · rw [if_pos hid, if_pos (h.edit hid), if_pos hid]
      rfl
    · rw [if_neg hid, if_neg hid, ite_self]
  | setEnabled i enabled =>
    simp only [Operation.edit]
    by_cases hid : i = id
    · rw [if_pos hid, if_pos (h.edit hid), if_pos hid]
      rfl
    · rw [if_neg hid, if_neg hid, ite_self]
  | remove i =>
    have hid : ¬ i = id := fun hid => h.remove (congrArg Operation.remove hid)
    simp only [Operation.edit, if_neg hid, ite_self]
  | append run => exact ite_self _
  | find i => exact ite_self _
  | isEnabled i => exact ite_self _
  | all => exact ite_self _
  | runs i limit => exact ite_self _

end Entry.Spares

namespace Journal

variable {id : String} {j j' : Journal}

/-- **A flow that requests spare is changed by the edits alone, and the end of its latest
run by the runs alone.** -/
theorem stored_of_spares {g : StoredFlow} (hg : j.stored id = some g) (h : ∀ e ∈ j', e.Spares id) :
    (j ++ j' : Journal).stored id = some ((j'.changed id g).withLastRun
      (((j'.putUnder id).getLast?.map (·.finishedAt)).or g.lastRunAt)) := by
  induction j' generalizing j g with
  | nil => rwa [List.append_nil]
  | cons e j' ih =>
    have he := h e List.mem_cons_self
    -- by induction on the requests; the flow is split into its definition and the end of
    -- its latest run
    obtain ⟨g₀, hedited, rfl⟩ := Option.map_eq_some_iff.mp hg
    have hstep : (j ++ [e] : Journal).stored id = some ((e.change id g₀).withLastRun
        (e.lastRun id (j.lastRun id none))) := by
      rw [stored_append, hedited, he.edit_eq]
      rfl
    have hrest := ih hstep fun e' he' => h e' (List.mem_cons_of_mem e he')
    rw [List.append_assoc, List.singleton_append] at hrest
    rw [hrest]
    -- runs put in later win over this one, which wins over the one before
    have hput : putUnder id (e :: j') = putUnder id [e] ++ putUnder id j' :=
      putUnder_append id [e] j'
    have hchanged : changed id (g₀.withLastRun (j.lastRun id none)) (e :: j') =
        (changed id (e.change id g₀) j').withLastRun (j.lastRun id none) := by
      rw [changed_withLastRun]
      rfl
    rw [hput, hchanged, changed_withLastRun, List.getLast?_append, Option.map_or, Option.or_assoc]
    refine congrArg (fun last => some ((changed id (e.change id g₀) j').withLastRun last)) ?_
    exact congrArg _ (Entry.lastRun_eq he.create _)

theorem appended_of_spares (runs : List RunRecord) (h : ∀ e ∈ j, e.Spares id) :
    j.appended id runs = (j.putUnder id).reverse ++ runs := by
  induction j generalizing runs with
  | nil => rfl
  | cons e j ih =>
    have hput : putUnder id (e :: j) = putUnder id [e] ++ putUnder id j := putUnder_append id [e] j
    show appended id (e.appended id runs) j = _
    rw [ih _ fun e' he' => h e' (List.mem_cons_of_mem e he'),
      Entry.appended_eq (h e List.mem_cons_self).remove, hput,
      List.reverse_append, List.append_assoc]

end Journal

/-! ### Stores and the flows that they hold -/

namespace Store

variable {s : Store} {t : Table} {m : Memory} {now : Moment} {op : Operation} {id : String}
  {f : StoredFlow}

/-- A flow that is stored is not created again. -/
theorem Holds.create_refused (h : s.Holds m) {g : Flow} (hf : m.flows.lookup g.id = some f)
    (now : Moment) :
    ∃ e, (s.apply now (.create g)).1 = .error e := by
  cases s with
  | memory m₀ =>
    obtain rfl : m₀ = m := h
    refine ⟨.problem (.flowExists g.id), ?_⟩
    have hcreate : m₀.apply now (.create g) = .error (.problem (.flowExists g.id)) := by
      show (if (m₀.flows.lookup g.id).isSome then _ else _) = _
      rw [hf]
      rfl
    rw [apply, hcreate]
  | table t =>
    refine ⟨.problem (.flowExists g.id), ?_⟩
    show (Table.create g now t).1 = _
    rw [Table.create_run, Table.Holds.document?_eq h, hf]
    rfl
  | remote => exact h.elim

/-- In tables, whether a flow can be changed depends on whether it can be read. -/
theorem change_isOk (t : Table) (id : String) (g : StoredFlow → StoredFlow) :
    ((Table.change id g t).1.toOption.isSome) = (t.flowAt id).toOption.isSome := by
  rw [Table.change_run]
  cases t.flowAt id <;> rfl

/-- A flow that is stored and can be read is edited. -/
theorem Holds.edit_answered (h : s.Holds m) (hs : m.Sound) (hf : m.flows.lookup id = some f)
    (hread : s.Reads f.definition.toJson) (hop : op.Edits id) :
    (s.apply now op).1.toOption.isSome = true := by
  cases s with
  | memory m₀ =>
    obtain rfl : m₀ = m := h
    have hchange (g : StoredFlow → StoredFlow) (hg : m₀.apply now op = m₀.change id g) :
        ((Store.memory m₀).apply now op).1.toOption.isSome = true := by
      rw [apply, hg, Memory.change, Memory.find_ok.mpr hf]
      rfl
    cases op with
    | revise i g =>
      obtain rfl : i = id := hop
      exact hchange _ rfl
    | setEnabled i enabled =>
      obtain rfl : i = id := hop
      exact hchange _ rfl
    | _ => exact hop.elim
  | table t =>
    have hflow : (t.flowAt id).toOption.isSome = true := by
      rw [Table.Holds.flowAt_ok h hs hf hread]
      rfl
    cases op with
    | revise i g =>
      obtain rfl : i = id := hop
      exact (change_isOk t i _).trans hflow
    | setEnabled i enabled =>
      obtain rfl : i = id := hop
      exact (change_isOk t i _).trans hflow
    | _ => exact hop.elim
  | remote => exact h.elim

/-- **A store spares the flows that it can read, as long as they are not removed.** -/
theorem Holds.spares (h : s.Holds m) (hs : m.Sound) (hf : m.flows.lookup id = some f)
    (hread : s.Reads f.definition.toJson) (hop : op ≠ .remove id) :
    Entry.Spares ⟨now, op, (s.apply now op).1⟩ id where
  create := by
    rintro g rfl rfl
    obtain ⟨e, he⟩ := h.create_refused hf now
    rw [Entry.isAnswered, he]
    rfl
  remove := hop
  edit := h.edit_answered hs hf hread

theorem table_refused (h : t.Holds m) (hs : m.Sound) (hf : m.flows.lookup id = some f)
    (hbad : t.codec.keeps f.definition.toJson = false) (hop : op.Concerns id) :
    (t.apply now op).1.toOption.isSome = false := by
  have hread : (t.flowAt id).toOption = none := by
    obtain ⟨hl, _⟩ | ⟨r, hl, hkeeps, _⟩ | ⟨r, e, _, _, hr⟩ := Table.Holds.find_cases h hs id
    · cases hl.symm.trans hf
    · obtain rfl := Option.some_inj.mp (hl.symm.trans hf)
      cases hbad.symm.trans hkeeps
    · rw [hr]
      rfl
  cases op with
  | create g =>
    obtain rfl : g.id = id := hop
    obtain ⟨e, he⟩ := Holds.create_refused (s := .table t) h hf now
    rw [show (t.apply now (.create g)).1 = .error e from he]
    rfl
  | revise i g =>
    obtain rfl : i = id := hop
    exact (change_isOk t i _).trans (by rw [hread]; rfl)
  | setEnabled i enabled =>
    obtain rfl : i = id := hop
    exact (change_isOk t i _).trans (by rw [hread]; rfl)
  | remove i =>
    obtain rfl : i = id := hop
    obtain ⟨e, he⟩ := toOption_eq_none.mp hread
    show (Table.remove i t).1.toOption.isSome = false
    rw [Table.remove_run, he]
    rfl
  | append run =>
    obtain rfl : run.flowId = id := hop
    show (Table.append run t).1.toOption.isSome = false
    rw [Table.append_run]
    split
    · rfl
    · split
      · unfold Table.flowAt at hread
        cases hd : t.document? run.flowId with
        | none =>
          rw [h.document?_eq, hf] at hd
          cases hd
        | some v =>
          -- the row of the run was inserted already, and is taken back as the flow cannot be read
          rw [hd] at hread
          simp only at hread ⊢
          obtain ⟨e, he⟩ := toOption_eq_none.mp hread
          rw [he]
          rfl
      · rfl
  | _ => exact hop.elim

/-- Whatever concerns a flow that the store cannot read is refused. -/
theorem Holds.refused (h : s.Holds m) (hs : m.Sound) (hf : m.flows.lookup id = some f)
    (hbad : ¬ s.Reads f.definition.toJson) (hop : op.Concerns id) :
    (s.apply now op).1.toOption.isSome = false := by
  cases s with
  | memory m₀ => exact absurd True.intro hbad
  | table t => exact table_refused h hs hf (Bool.eq_false_iff.mpr hbad) hop
  | remote => exact h.elim

/-- What a store can read does not depend on what it is asked. -/
theorem reads_apply (s : Store) (now : Moment) (op : Operation) :
    (s.apply now op).2.Reads = s.Reads := by
  cases s with
  | memory m₀ =>
    rw [apply]
    cases m₀.apply now op <;> rfl
  | table t =>
    funext v
    show ((t.apply now op).2.codec.keeps v = true) = (t.codec.keeps v = true)
    rw [Table.codec_apply]
  | remote => rfl

theorem reads_setEnabled (s : Store) (f : Flow) (enabled : Bool) :
    s.Reads ({ f with enabled := enabled } : Flow).toJson ↔ s.Reads f.toJson := by
  cases s with
  | memory m₀ => exact Iff.rfl
  | table t =>
    show _ = true ↔ _ = true
    rw [Codec.keeps_setEnabled]
  | remote => exact Iff.rfl

/-- A flow stays readable if every definition that it is given is. -/
theorem reads_changed (s : Store) {id : String} {j : Journal} {f : StoredFlow}
    (hf : s.Reads f.definition.toJson)
    (hj : ∀ e ∈ j, ∀ g, e.operation = .revise id g → s.Reads g.toJson) :
    s.Reads (j.changed id f).definition.toJson := by
  induction j generalizing f with
  | nil => exact hf
  | cons e j ih =>
    refine ih ?_ fun e' he' => hj e' (List.mem_cons_of_mem e he')
    unfold Entry.change
    split
    · rename_i i g hop
      split
      · rename_i hid
        exact hj e List.mem_cons_self g (hid ▸ hop)
      · exact hf
    · split
      · exact (s.reads_setEnabled f.definition _).mpr hf
      · exact hf
    · exact hf

end Store

end Cadence
