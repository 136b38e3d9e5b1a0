/-
Tables that hold what a store in memory holds.

* `Table.Holds` — a table has one row for each flow in memory, in the order of their
  creation, and one row for each run in a history, the latest one last; the rows hold what
  was written down;
* `Table.Holds.find_cases` — a flow is read back from its row if its document comes back as it was;
* `Table.Holds.of_ok` — whatever the tables accept, the memory accepts as well, and afterwards the
  tables hold what the memory holds then;
* `Table.of_error` — a request that is refused changes nothing.
-/
import Cadence.Proofs.Store.Codec
import Cadence.Proofs.Store.Memory
import Cadence.Proofs.Store.Table

namespace Cadence.Table

open Cadence.Calendar

variable {t t' : Table} {m m' : Memory} {now : Moment} {op : Operation} {a : Answer}

/-- The row of a flow. -/
def rowOf (e : String × StoredFlow) : FlowRow := ⟨e.1, written e.2.toJson⟩

/-- Tables that hold what a memory holds. -/
structure Holds (t : Table) (m : Memory) : Prop where
  limit : t.limit = m.limit
  flows : t.flows = m.flows.map rowOf
  runs : ∀ id, ((t.runsOf id).map (·.document)).reverse = (m.history id).map fun r =>
    written r.toJson
  numbered : t.Numbered

theorem holds_empty (codec : Codec) (limit : Int) : (empty codec limit).Holds (.empty limit) where
  limit := rfl
  flows := rfl
  runs := fun _ => rfl
  numbered := ⟨List.Pairwise.nil, fun _ h => by cases h⟩

/-! ### Reading -/

theorem Holds.document?_eq (h : t.Holds m) (id : String) :
    t.document? id = (m.flows.lookup id).map fun r => written r.toJson := by
  unfold document?
  rw [h.flows]
  induction m.flows with
  | nil => rfl
  | cons e es ih =>
    rw [List.map_cons, List.find?_cons, List.lookup_cons]
    by_cases he : e.1 = id
    · simp [rowOf, he]
    · have hne : (id == e.1) = false := beq_false_of_ne fun h => he h.symm
      have hne' : decide ((rowOf e).id = id) = false := decide_eq_false he
      rw [hne, hne']
      exact ih

/-- **A flow is read back from its row if its document comes back as it was.** -/
theorem Holds.find_cases (h : t.Holds m) (hs : m.Sound) (id : String) :
    (m.flows.lookup id = none ∧ t.flowAt id = .error (.problem (.flowNotFound id))) ∨
    (∃ r, m.flows.lookup id = some r ∧ t.codec.keeps r.definition.toJson = true ∧
      t.flowAt id = .ok r) ∨
    (∃ r e, m.flows.lookup id = some r ∧ t.codec.keeps r.definition.toJson = false ∧
      t.flowAt id = .error e) := by
  unfold flowAt
  rw [h.document?_eq]
  cases hl : m.flows.lookup id with
  | none => exact Or.inl ⟨rfl, rfl⟩
  | some r =>
    refine Or.inr ?_
    have hread := toOption_readFlow t.codec (hs.flow id r hl).wellFormed
    simp only [Option.map_some]
    cases hf : t.codec.keeps r.definition.toJson with
    | true =>
      rw [hf] at hread
      exact Or.inl ⟨r, rfl, hf, toOption_eq_some.mp hread⟩
    | false =>
      rw [hf] at hread
      obtain ⟨e, he⟩ := toOption_eq_none.mp hread
      exact Or.inr ⟨r, e, rfl, hf, he⟩

/-- A flow whose document comes back is read as it is. -/
theorem Holds.flowAt_ok (h : t.Holds m) (hs : m.Sound) {id : String} {f : StoredFlow}
    (hf : m.flows.lookup id = some f) (hkeeps : t.codec.keeps f.definition.toJson = true) :
    t.flowAt id = .ok f := by
  obtain ⟨hl, _⟩ | ⟨r, hl, _, hr⟩ | ⟨r, e, hl, hbad, _⟩ := h.find_cases hs id
  · cases hl.symm.trans hf
  · rw [hr, Option.some_inj.mp (hl.symm.trans hf)]
  · obtain rfl := Option.some_inj.mp (hl.symm.trans hf)
    cases hbad.symm.trans hkeeps

theorem Holds.documents_eq (h : t.Holds m) :
    t.documents = (m.flows.mergeSort fun e e' => decide (e.1 ≤ e'.1)).map fun e =>
      written e.2.toJson := by
  have hsort : t.flows.mergeSort (fun r r' => decide (r.id ≤ r'.id)) =
      (m.flows.mergeSort fun e e' => decide (e.1 ≤ e'.1)).map rowOf := by
    rw [h.flows]
    exact (List.map_mergeSort (f := rowOf) fun e _ e' _ => rfl).symm
  rw [documents, hsort, List.map_map]
  rfl

/-! ### Changing flows -/

theorem Holds.create (h : t.Holds m) {r : StoredFlow} (hl : m.flows.lookup r.id = none) :
    (t.insertFlow r.id (written r.toJson)).Holds (m.putFlow r) where
  limit := h.limit
  flows := by
    show t.flows ++ _ = (put r.id r m.flows).map rowOf
    rw [h.flows, put_of_lookup_none hl, List.map_append]
    rfl
  runs := h.runs
  numbered := ⟨h.numbered.order, h.numbered.bound⟩

theorem Holds.put (h : t.Holds m) (hs : m.Sound) {id : String} (r : StoredFlow)
    (hl : (m.flows.lookup id).isSome) :
    (t.updateFlow id (written r.toJson)).Holds { m with flows := Cadence.put id r m.flows } where
  limit := h.limit
  flows := by
    show t.flows.map _ = (Cadence.put id r m.flows).map rowOf
    rw [h.flows, put_of_lookup_some hs.single hl, List.map_map, List.map_map]
    refine List.map_congr_left fun e _ => ?_
    by_cases he : e.1 = id
    · simp [rowOf, he]
    · simp [rowOf, he]
  runs := h.runs
  numbered := ⟨h.numbered.order, h.numbered.bound⟩

theorem Holds.remove (h : t.Holds m) (id : String) :
    ((t.deleteFlow id).deleteRuns id).Holds { m with
      flows := m.flows.filter fun e => e.1 != id
      histories := m.histories.filter fun e => e.1 != id } where
  limit := h.limit
  flows := by
    show t.flows.filter _ = (m.flows.filter _).map rowOf
    rw [h.flows, List.filter_map]
    rfl
  runs := by
    intro i
    have hruns : ((t.deleteFlow id).deleteRuns id).runsOf i = if id = i then [] else t.runsOf i :=
      runsOf_deleteRuns (t := t) id i
    rw [hruns, Memory.history, lookup_filter]
    by_cases hi : id = i
    · rw [if_pos hi, if_pos hi]
      rfl
    · rw [if_neg hi, if_neg hi]
      exact h.runs i
  numbered := ⟨(h.numbered.filter _).order, (h.numbered.filter _).bound⟩

/-! ### Changing histories -/

theorem Holds.withRun (h : t.Holds m) (hs : m.Sound) (run : RunRecord) :
    (t.withRun run).Holds { m with
      histories := Cadence.put run.flowId (keepFirst m.limit (run :: m.history run.flowId))
        m.histories } where
  limit := h.limit
  flows := h.flows
  runs := by
    intro id
    have hl : 0 ≤ (t.insertRun run).limit := by
      show 0 ≤ t.limit
      rw [h.limit]
      exact hs.limit
    -- rows come in at the end and runs at the head, so one list is the reverse of the other
    show (((t.insertRun run).trimRuns run.flowId).runsOf id |>.map (·.document)).reverse = _
    rw [runsOf_trimRuns (h.numbered.insertRun run) hl, runsOf_insertRun]
    unfold Memory.history
    by_cases hid : run.flowId = id
    · have hlimit : (t.insertRun run).limit = m.limit := h.limit
      have hold := h.runs id
      rw [← List.map_reverse] at hold
      rw [if_pos hid, if_pos hid, hid, lookup_put_self, Option.getD_some,
        Memory.keepFirst_of_nonneg hs.limit,
        hlimit, List.map_reverse, List.reverse_reverse, List.reverse_append, List.map_take,
        List.map_append, hold, List.map_take]
      rfl
    · rw [if_neg hid, if_neg hid, List.append_nil, lookup_put_ne fun e => hid e.symm]
      exact h.runs id
  numbered := (h.numbered.insertRun run).filter _

theorem Holds.append (h : t.Holds m) (hs : m.Sound) (run : RunRecord) :
    (match m.flows.lookup run.flowId with
      | none => t.withRun run
      | some f =>
        (t.withRun run).updateFlow run.flowId
          (written (f.ranAt run.finishedAt).toJson)).Holds
        (m.append run) := by
  have hrun := h.withRun hs run
  rw [Memory.append_eq]
  cases hl : m.flows.lookup run.flowId with
  | none => exact hrun
  | some f =>
    refine ⟨hrun.limit, ?_, hrun.runs, hrun.numbered.order, hrun.numbered.bound⟩
    exact (h.put hs (f.ranAt run.finishedAt) (by rw [hl]; rfl)).flows

/-! ### Requests -/

/-- A request that is refused changes nothing. -/
theorem of_error {e : StoreFault} (h : t.apply now op = (.error e, t')) : t' = t := by
  have hquery : ∀ {x : Except StoreFault Answer}, (x, t) = (.error e, t') → t' = t :=
    fun hx => (Prod.mk.inj hx).2.symm
  cases op with
  | create f =>
    have h := (create_run f now t).symm.trans h
    split at h
    · exact hquery h
    · cases h
  | revise id f =>
    have h := (change_run id _ t).symm.trans h
    split at h
    · cases h
    · exact hquery h
  | remove id =>
    have h := (remove_run id t).symm.trans h
    split at h
    · cases h
    · exact hquery h
  | setEnabled id enabled =>
    have h := (change_run id _ t).symm.trans h
    split at h
    · cases h
    · exact hquery h
  | append run =>
    have h := (append_run run t).symm.trans h
    split at h
    · exact hquery h
    · split at h
      · split at h
        · cases h
        · split at h
          · cases h
          · exact hquery h
      · exact hquery h
  | find id => exact hquery ((query_run id .flow t).symm.trans h)
  | isEnabled id => exact hquery ((query_run id _ t).symm.trans h)
  | all => exact hquery ((all_run t).symm.trans h)
  | runs id limit => exact hquery ((history_run id limit t).symm.trans h)

/-- A request that only asks for a flow. -/
theorem Holds.of_query (h : t.Holds m) (hs : m.Sound) {id : String} {g : StoredFlow → Answer}
    (ha : ((t.flowAt id).map g, t) = (.ok a, t')) : (∃ r, m.flows.lookup id = some r) ∧ t' = t := by
  obtain ⟨hl, hr⟩ | ⟨r, hl, _, hr⟩ | ⟨r, e, hl, _, hr⟩ := h.find_cases hs id
  · rw [hr] at ha
    cases ha
  · exact ⟨⟨r, hl⟩, (Prod.mk.inj ha).2.symm⟩
  · exact ⟨⟨r, hl⟩, (Prod.mk.inj ha).2.symm⟩

theorem Holds.of_change (h : t.Holds m) (hs : m.Sound) {id : String} {f : StoredFlow → StoredFlow}
    (hid : ∀ r, m.flows.lookup id = some r → (f r).id = id) (ha : change id f t = (.ok a, t')) :
    ∃ m', m.change id f = .ok (a, m') ∧ t'.Holds m' := by
  rw [change_run] at ha
  obtain ⟨hl, hr⟩ | ⟨r, hl, _, hr⟩ | ⟨r, e, hl, _, hr⟩ := h.find_cases hs id
  · rw [hr] at ha
    cases ha
  · rw [hr] at ha
    obtain ⟨hans, rfl⟩ := Prod.mk.inj ha
    obtain rfl := Except.ok.inj hans
    refine ⟨_, Memory.change_ok.mpr ⟨r, hl, rfl, rfl⟩, ?_⟩
    rw [hid r hl]
    exact h.put hs (f r) (by rw [hl]; rfl)
  · rw [hr] at ha
    cases ha

theorem Holds.of_create (h : t.Holds m) {f : Flow} (ha : Table.create f now t = (.ok a, t')) :
    ∃ m', m.create f now = .ok (a, m') ∧ t'.Holds m' := by
  rw [create_run, h.document?_eq, Option.isSome_map] at ha
  cases hl : m.flows.lookup f.id with
  | some r =>
    rw [hl] at ha
    cases ha
  | none =>
    rw [hl] at ha
    obtain ⟨hans, rfl⟩ := Prod.mk.inj ha
    obtain rfl := Except.ok.inj hans
    exact ⟨_, Memory.create_ok.mpr ⟨hl, rfl, rfl⟩, h.create (r := .new f now) hl⟩

theorem Holds.of_remove (h : t.Holds m) (hs : m.Sound) {id : String}
    (ha : Table.remove id t = (.ok a, t')) :
    ∃ m', m.remove id = .ok (a, m') ∧ t'.Holds m' := by
  rw [remove_run] at ha
  obtain ⟨hl, hr⟩ | ⟨r, hl, _, hr⟩ | ⟨r, e, hl, _, hr⟩ := h.find_cases hs id
  · rw [hr] at ha
    cases ha
  · rw [hr] at ha
    obtain ⟨hans, rfl⟩ := Prod.mk.inj ha
    obtain rfl := Except.ok.inj hans
    exact ⟨_, Memory.remove_ok.mpr ⟨⟨r, hl⟩, rfl, rfl⟩, h.remove id⟩
  · rw [hr] at ha
    cases ha

theorem Holds.of_append (h : t.Holds m) (hs : m.Sound) {run : RunRecord}
    (ha : Table.append run t = (.ok a, t')) : a = .done ∧ t'.Holds (m.append run) := by
  have happend := h.append hs run
  have hread := h.find_cases hs run.flowId
  rw [append_run] at ha
  unfold flowAt at hread
  rw [h.document?_eq] at ha hread
  cases hwrite : t.codec.unwritable? run.toJson with
  | some reason =>
    rw [hwrite] at ha
    cases ha
  | none =>
    rw [hwrite] at ha
    by_cases hlimit : isLimit t.limit = true
    · simp only [if_pos hlimit] at ha
      cases hl : m.flows.lookup run.flowId with
      | none =>
        rw [hl] at ha happend
        obtain ⟨hans, rfl⟩ := Prod.mk.inj ha
        exact ⟨(Except.ok.inj hans).symm, happend⟩
      | some f =>
        rw [hl] at ha happend hread
        simp only [Option.map_some] at ha hread
        -- the row of the run is kept only if the flow can be read and written back
        obtain ⟨hl, _⟩ | ⟨r, hr, _, hv⟩ | ⟨r, e, _, _, hv⟩ := hread
        · cases hl
        · obtain rfl := Option.some_inj.mp hr
          rw [hv] at ha
          obtain ⟨hans, rfl⟩ := Prod.mk.inj ha
          rw [(hs.flow run.flowId f hl).own]
          exact ⟨(Except.ok.inj hans).symm, happend⟩
        · rw [hv] at ha
          cases ha
    · simp only [if_neg hlimit] at ha
      cases ha

/-- **Whatever the tables accept, the memory accepts as well, and afterwards the tables hold
what the memory holds then.** -/
theorem Holds.of_ok (h : t.Holds m) (hs : m.Sound) (ha : t.apply now op = (.ok a, t')) :
    ∃ a' m', m.apply now op = .ok (a', m') ∧ t'.Holds m' := by
  cases op with
  | create f =>
    obtain ⟨m', hm, ht⟩ := h.of_create ha
    exact ⟨a, m', hm, ht⟩
  | revise id f =>
    obtain ⟨m', hm, ht⟩ := h.of_change hs (fun r hr => Memory.revise_id (hs.flow id r hr) f now) ha
    exact ⟨a, m', hm, ht⟩
  | remove id =>
    obtain ⟨m', hm, ht⟩ := h.of_remove hs ha
    exact ⟨a, m', hm, ht⟩
  | setEnabled id enabled =>
    obtain ⟨m', hm, ht⟩ := h.of_change hs (f := (·.setEnabled enabled now))
      (fun r hr => (hs.flow id r hr).own) ha
    exact ⟨a, m', hm, ht⟩
  | append run =>
    obtain ⟨_, ht⟩ := h.of_append hs ha
    exact ⟨_, _, rfl, ht⟩
  | find id =>
    obtain ⟨⟨r, hr⟩, rfl⟩ := h.of_query hs ((query_run id .flow t).symm.trans ha)
    exact ⟨_, m, Memory.query_ok.mpr ⟨r, hr, rfl, rfl⟩, h⟩
  | isEnabled id =>
    obtain ⟨⟨r, hr⟩, rfl⟩ := h.of_query hs ((query_run id _ t).symm.trans ha)
    exact ⟨_, m, Memory.query_ok.mpr ⟨r, hr, rfl, rfl⟩, h⟩
  | all =>
    obtain ⟨_, rfl⟩ := Prod.mk.inj ((all_run t).symm.trans ha)
    exact ⟨_, m, rfl, h⟩
  | runs id limit =>
    have hrun := (history_run id limit t).symm.trans ha
    obtain ⟨hl, hr⟩ | ⟨r, hl, _, hr⟩ | ⟨r, e, hl, _, hr⟩ := h.find_cases hs id
    · rw [hr] at hrun
      cases hrun
    · obtain ⟨_, rfl⟩ := Prod.mk.inj hrun
      exact ⟨_, m, Memory.query_ok.mpr ⟨r, hl, rfl, rfl⟩, h⟩
    · rw [hr] at hrun
      cases hrun

end Cadence.Table
