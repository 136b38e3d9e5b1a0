/-
What tables answer when they hold what a memory holds.

* `Table.Holds.toOption_all` — all flows, in the order of their ids, if the documents of all
  of them come back;
* `Table.Holds.toOption_history` — what is left of the runs of a flow, if all of them come back;
* `Table.Holds.apply_of_finite` — as long as everything is finite, tables with a lossless
  codec answer what the memory answers, with lists of flows in the order of their ids.
-/
import Cadence.Proofs.Store.Filing

namespace Cadence

open Calendar

/-- Flows in the order of their ids. -/
def byId (fs : List StoredFlow) : List StoredFlow := fs.mergeSort fun f g => decide (f.id ≤ g.id)

/-- An answer with its flows in the order of their ids. -/
def Answer.byId : Answer → Answer
  | .flows fs => .flows (Cadence.byId fs)
  | a => a

theorem byId_perm (fs : List StoredFlow) : (byId fs).Perm fs := List.mergeSort_perm _ _

/-- The part of a history that is asked for. -/
def askedPart {α : Type} (limit : Option Int) (xs : List α) : List α :=
  match limit with
  | none => xs
  | some n => keepFirst n xs

/-- Whether a limit, if there is one, is a count that tables know. -/
def IsCount (limit : Option Int) : Prop := ∀ n, limit = some n → 0 ≤ n ∧ n ≤ Table.maxInteger

namespace Table

variable {t t' : Table} {m m' : Memory} {now : Moment} {op : Operation} {a : Answer}

theorem within_map {α β : Type} (limit : Int) (f : α → β) (xs : List α) :
    (within limit xs).map f = within limit (xs.map f) := by
  unfold within
  split
  · rfl
  · exact List.map_take

theorem within_eq_askedPart {α : Type} {limit : Option Int} (h : IsCount limit) (xs : List α) :
    within (limit.getD (-1)) xs = askedPart limit xs := by
  cases limit with
  | none => rfl
  | some n =>
    have hn := (h n rfl).1
    show (if n < 0 then xs else xs.take n.toNat) = keepFirst n xs
    rw [if_neg (by omega), Memory.keepFirst_of_nonneg hn]

theorem isLimit_of_isCount {limit : Option Int} (h : IsCount limit) :
    isLimit (limit.getD (-1)) = true := by
  cases limit with
  | none => rfl
  | some n =>
    obtain ⟨h0, h1⟩ := h n rfl
    simp only [isLimit, Option.getD_some, Bool.and_eq_true, decide_eq_true_eq]
    unfold maxInteger at *
    omega

theorem Holds.documents_of_runs (h : t.Holds m) (id : String) (limit : Int) :
    (t.latestRuns id limit).map (·.document) =
      (within limit (m.history id)).map fun r => written r.toJson := by
  rw [latestRuns_eq h.numbered, within_map, List.map_reverse, h.runs id, within_map]

/-- **What is left of the runs of a flow is read back if all of them come back, and the
request is refused otherwise.** -/
theorem Holds.toOption_history (h : t.Holds m) (hs : m.Sound) {id : String} {r : StoredFlow}
    (hr : t.flowAt id = .ok r) {limit : Option Int} (hl : IsCount limit) :
    (Table.history id limit t).1.toOption =
      if (askedPart limit (m.history id)).all t.codec.returns then
        some (.runs ((askedPart limit (m.history id)).map RunRecord.filed)) else none := by
  have hwf : ∀ run ∈ askedPart limit (m.history id), run.WellFormed := by
    intro run hrun
    refine (hs.run id run ?_).2
    rw [← within_eq_askedPart hl] at hrun
    unfold within at hrun
    split at hrun
    · exact hrun
    · exact List.mem_of_mem_take hrun
  have hread :
      ((t.latestRuns id (limit.getD (-1))).mapM fun r =>
      readRun t.codec r.document).toOption =
      if (askedPart limit (m.history id)).all t.codec.returns then
        some ((askedPart limit (m.history id)).map RunRecord.filed) else none := by
    have hmap := h.documents_of_runs id (limit.getD (-1))
    rw [within_eq_askedPart hl] at hmap
    calc ((t.latestRuns id (limit.getD (-1))).mapM fun r => readRun t.codec r.document).toOption
        = ((t.latestRuns id (limit.getD (-1))).map (·.document)).mapM fun v =>
          (readRun t.codec v).toOption := by
          rw [toOption_mapM, List.mapM_map]
          rfl
      _ = (askedPart limit (m.history id)).mapM fun run =>
          (readRun t.codec (written run.toJson)).toOption := by
          rw [hmap, List.mapM_map]
          rfl
      _ = _ := by
          rw [mapM_congr fun run hrun => toOption_readRun t.codec (hwf run hrun)]
          exact mapM_ite _ _ _
  rw [history_run, hr, isLimit_of_isCount hl]
  show ((t.latestRuns id (limit.getD (-1))).mapM (fun r => readRun t.codec r.document) >>=
    fun runs => pure (Answer.runs runs)).toOption = _
  rw [toOption_bind, hread]
  split <;> rfl

theorem Holds.documents_byId (h : t.Holds m) (hs : m.Sound) :
    t.documents = (byId (m.flows.map (·.2))).map fun f => written f.toJson := by
  -- tables sort by the name of the row, and each flow stands under its own id
  have hid : ∀ e ∈ m.flows, e.2.id = e.1 :=
    fun e he => (hs.flow e.1 e.2 (lookup_eq_some_of_mem hs.single he)).own
  have hsort : byId (m.flows.map (·.2)) =
      (m.flows.mergeSort fun e e' => decide (e.1 ≤ e'.1)).map (·.2) := by
    refine (List.map_mergeSort (f := Prod.snd) fun e he e' he' => ?_).symm
    rw [hid e he, hid e' he']
  rw [h.documents_eq, hsort, List.map_map]
  rfl

theorem wellFormed_of_mem (hs : m.Sound) : ∀ f ∈ m.flows.map (·.2), f.WellFormed := by
  intro f hf
  exact (hs.flow f.id f (Memory.lookup_of_mem hs hf)).wellFormed

/-- **All flows are read back, in the order of their ids, if the documents of all of them
come back, and the request is refused otherwise.** -/
theorem Holds.toOption_all (h : t.Holds m) (hs : m.Sound) :
    (Table.all t).1.toOption =
      if (m.flows.map (·.2)).all fun f => t.codec.keeps f.definition.toJson then
        some (.flows (byId (m.flows.map (·.2)))) else none := by
  have hwf : ∀ f ∈ byId (m.flows.map (·.2)), f.WellFormed :=
    fun f hf => wellFormed_of_mem hs f ((byId_perm _).mem_iff.mp hf)
  have hread : (t.documents.mapM (readFlow t.codec)).toOption =
      if (m.flows.map (·.2)).all fun f => t.codec.keeps f.definition.toJson then
        some (byId (m.flows.map (·.2))) else none := by
    rw [toOption_mapM, h.documents_byId hs, List.mapM_map,
      ← (byId_perm (m.flows.map (·.2))).all_eq]
    refine (mapM_congr fun f hf => toOption_readFlow t.codec (hwf f hf)).trans ?_
    exact (mapM_ite _ id _).trans (by rw [List.map_id])
  rw [all_run, toOption_map, hread]
  split <;> rfl

end Table

/-! ### Everything finite -/

/-- A memory that holds only finite numbers. -/
structure Memory.IsFinite (m : Memory) : Prop where
  flow : ∀ id r, m.flows.lookup id = some r → r.definition.toJson.allFinite = true
  run : ∀ id, ∀ run ∈ m.history id, run.toJson.allFinite = true

/-- A request whose limit, if it has one, is a count that tables know. -/
def Operation.IsCounted : Operation → Prop
  | .runs _ limit => IsCount limit
  | _ => True

theorem Memory.empty_isFinite (limit : Int) : (Memory.empty limit).IsFinite :=
  ⟨fun _ _ h => (by cases h), fun _ _ h => (by cases h)⟩

theorem Flow.allFinite_setEnabled (f : Flow) (enabled : Bool) :
    ({ f with enabled := enabled } : Flow).toJson.allFinite = f.toJson.allFinite := by
  rw [Flow.allFinite_toJson, Flow.allFinite_toJson]

section

variable {m m' : Memory} {now : Moment} {op : Operation} {a : Answer}

/-- **Requests with finite numbers keep a memory finite.** -/
theorem Memory.IsFinite.apply (hf : m.IsFinite) (hs : m.Sound) (hop : op.isFinite = true)
    (h : m.apply now op = .ok (a, m')) : m'.IsFinite where
  flow := by
    intro id r hr
    rw [Memory.lookup_of_apply h (Memory.lookup_eq_withLastRun m id)] at hr
    obtain ⟨g, hg, rfl⟩ := Option.map_eq_some_iff.mp hr
    refine Operation.edit_preserves (P := fun g => g.definition.toJson.allFinite = true) ?_ ?_ ?_
      (hf.flow id) g hg
    · rintro f rfl _
      exact hop
    · rintro f g rfl _
      exact hop
    · intro enabled g hg
      exact (g.definition.allFinite_setEnabled enabled).trans hg
  run := by
    intro id run hr
    refine Operation.appended_preserves (P := fun run => run.toJson.allFinite = true) ?_
      (hf.run id) run
      (Memory.mem_appended_of_mem_history hs h hr)
    rintro run rfl _
    exact hop

end

/-! ### The same answers -/

namespace Table

variable {t t' : Table} {m m' : Memory} {now : Moment} {op : Operation}

section

variable (h : t.Holds m) (hs : m.Sound) (hf : m.IsFinite) (hcodec : t.codec.IsLossless)

include h hs hf hcodec

/-- A finite flow is found as it is. -/
theorem Holds.flowAt_eq (id : String) : t.flowAt id = m.find id := by
  unfold Memory.find
  obtain ⟨hl, hr⟩ | ⟨r, hl, _, hr⟩ | ⟨r, e, hl, hbad, _⟩ := h.find_cases hs id
  · rw [hl, hr]
  · rw [hl, hr]
  · rw [hcodec.keeps_eq, hf.flow id r hl] at hbad
    cases hbad

theorem Holds.change_of_finite (id : String) (f : StoredFlow → StoredFlow) :
    (Table.change id f t).1 = (m.change id f).map fun r => r.1.byId := by
  rw [change_run, h.flowAt_eq hs hf hcodec id]
  unfold Memory.change
  cases m.find id <;> rfl

theorem Holds.query_of_finite (id : String) {g : StoredFlow → Answer} (hg : ∀ r, (g r).byId = g r) :
    (t.flowAt id).map g = ((m.find id).map fun f => (g f, m)).map fun r => r.1.byId := by
  rw [h.flowAt_eq hs hf hcodec id]
  cases m.find id with
  | error e => rfl
  | ok r => exact congrArg Except.ok (hg r).symm

theorem Holds.append_of_finite (hl : isLimit t.limit = true) {run : RunRecord}
    (hfinite : run.toJson.allFinite = true) : (Table.append run t).1 = .ok .done := by
  have hfind := h.flowAt_eq hs hf hcodec run.flowId
  unfold flowAt Memory.find at hfind
  rw [append_run, hcodec.writes hfinite]
  simp only [if_pos hl]
  cases hd : t.document? run.flowId with
  | none => rfl
  | some v =>
    rw [hd] at hfind
    rw [h.document?_eq] at hd
    obtain ⟨f, hlookup, _⟩ := Option.map_eq_some_iff.mp hd
    rw [hlookup] at hfind
    simp only at hfind ⊢
    rw [hfind]

theorem Holds.history_of_finite {id : String} {limit : Option Int} (hc : IsCount limit) :
    (Table.history id limit t).1 = (m.find id).map fun _ =>
      .runs (askedPart limit (m.history id)) := by
  have hfind := h.flowAt_eq hs hf hcodec id
  cases hr : m.find id with
  | error e =>
    rw [hr] at hfind
    rw [history_run, hfind]
    rfl
  | ok r =>
    rw [hr] at hfind
    -- finite runs come back, and lose nothing when they are written down
    have hpart : ∀ run ∈ askedPart limit (m.history id), run.filed = run ∧
        t.codec.returns run = true := by
      intro run hrun
      have hfinite : run.toJson.allFinite = true := by
        refine hf.run id run ?_
        rw [← within_eq_askedPart hc] at hrun
        unfold within at hrun
        split at hrun
        · exact hrun
        · exact List.mem_of_mem_take hrun
      exact Codec.keeps_run.mp ((hcodec.keeps_eq _).trans hfinite)
    have hreturns : (askedPart limit (m.history id)).all t.codec.returns = true :=
      List.all_eq_true.mpr fun run hrun => (hpart run hrun).2
    have hfiled : (askedPart limit (m.history id)).map RunRecord.filed =
        askedPart limit (m.history id) := by
      rw [List.map_congr_left fun run hrun => (hpart run hrun).1]
      exact List.map_id _
    have hread := h.toOption_history hs hfind hc
    rw [if_pos hreturns, hfiled] at hread
    exact toOption_eq_some.mp hread

theorem Holds.all_of_finite : (Table.all t).1 = .ok (.flows (byId (m.flows.map (·.2)))) := by
  have hall : ((m.flows.map (·.2)).all fun f => t.codec.keeps f.definition.toJson) = true := by
    refine List.all_eq_true.mpr fun f hmem => ?_
    rw [hcodec.keeps_eq]
    exact hf.flow f.id f (Memory.lookup_of_mem hs hmem)
  -- whether the flows can be read does not depend on their order
  have hread := h.toOption_all hs
  rw [if_pos hall] at hread
  exact toOption_eq_some.mp hread

/-- **As long as everything is finite, tables with a lossless codec answer what the memory
answers, with lists of flows in the order of their ids.** -/
theorem Holds.apply_of_finite (hl : isLimit t.limit = true) (hop : op.isFinite = true)
    (hc : op.IsCounted) :
    (t.apply now op).1 = (m.apply now op).map fun r => r.1.byId := by
  cases op with
  | create f =>
    show (Table.create f now t).1 = (m.create f now).map _
    rw [create_run, h.document?_eq, Option.isSome_map]
    unfold Memory.create
    simp only [show (StoredFlow.new f now).id = f.id from rfl]
    split <;> rfl
  | revise id f => exact h.change_of_finite hs hf hcodec id _
  | remove id =>
    show (Table.remove id t).1 = (m.remove id).map _
    rw [remove_run, h.flowAt_eq hs hf hcodec id]
    unfold Memory.remove
    cases m.find id <;> rfl
  | setEnabled id enabled => exact h.change_of_finite hs hf hcodec id _
  | append run => exact h.append_of_finite hs hf hcodec hl hop
  | find id =>
    rw [show (t.apply now (.find id)).1 = (t.flowAt id).map .flow
      from congrArg Prod.fst (query_run id _ t)]
    exact h.query_of_finite hs hf hcodec id fun _ => rfl
  | isEnabled id =>
    rw [show (t.apply now (.isEnabled id)).1 = (t.flowAt id).map fun f =>
      .enabled f.definition.enabled from
      congrArg Prod.fst (query_run id _ t)]
    exact h.query_of_finite hs hf hcodec id fun _ => rfl
  | all => exact h.all_of_finite hs hf hcodec
  | runs id limit =>
    refine (h.history_of_finite hs hf hcodec hc).trans ?_
    show _ = ((m.find id).map _).map _
    cases m.find id <;> rfl

end

end Table

end Cadence
