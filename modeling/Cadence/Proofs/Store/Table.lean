/-
What the scripts of a store in tables do.

* `Table.bind_ok`, `Table.bind_error`, `Table.transaction_error` — a script is run statement by
  statement up to the first one that fails, and a transaction that fails is undone as a whole;
* `Table.find_run`, `Table.change_run`, `Table.create_run`, `Table.remove_run`,
  `Table.append_run`, `Table.all_run`, `Table.history_run` — each script as one step from
  tables to tables: it either does all it is meant to do or leaves the tables as they were;
* `Table.latestRuns_eq`, `Table.runsOf_trimRuns` — as long as the rows of runs are numbered in their
  order, the latest runs of a flow are its rows from the end backwards, and just these are kept.
-/
import Mathlib.Data.List.Nodup
import Mathlib.Tactic.Common
import Cadence.Proofs.Validation.Checked
import Cadence.Store.Table

namespace Cadence.Table

open Cadence.Calendar

variable {α β : Type}

/-! ### Running scripts -/

theorem bind_ok {x : Script α} {f : α → Script β} {t t' : Table} {a : α} (h : x t = (.ok a, t')) :
    (x >>= f) t = f a t' := by
  show (match x t with | (a, s) => ExceptT.bindCont f a s) = _
  rw [h]
  rfl

theorem bind_error {x : Script α} {f : α → Script β} {t t' : Table} {e : StoreFault}
    (h : x t = (.error e, t')) : (x >>= f) t = (.error e, t') := by
  show (match x t with | (a, s) => ExceptT.bindCont f a s) = _
  rw [h]
  rfl

theorem transaction_ok {x : Script α} {t t' : Table} {a : α} (h : x t = (.ok a, t')) :
    transaction x t = (.ok a, t') := by
  rw [transaction, h]

/-- A script that fails is undone as a whole. -/
theorem transaction_error {x : Script α} {t : Table} {e : StoreFault} (h : (x t).1 = .error e) :
    transaction x t = (.error e, t) := by
  unfold transaction
  cases hx : x t with
  | mk r t' =>
    rw [hx] at h
    rw [show r = .error e from h]

theorem get_run (t : Table) : (get : Script Table) t = (.ok t, t) := rfl

theorem modify_run (f : Table → Table) (t : Table) :
    (modify f : Script Unit) t = (.ok (), f t) :=
  rfl

theorem checkLimit_run (n : Int) (t : Table) :
    checkLimit n t = (if isLimit n then .ok () else .error .limit, t) := by
  unfold checkLimit
  cases isLimit n <;> rfl

theorem checkRun_run (run : RunRecord) (t : Table) :
    checkRun run t = (match t.codec.unwritable? run.toJson with
      | none => .ok ()
      | some reason => .error (.unwritable reason), t) := by
  unfold checkRun
  rw [bind_ok (get_run t)]
  cases t.codec.unwritable? run.toJson <;> rfl

/-- A stored flow as it is read. -/
def flowAt (t : Table) (id : String) : Except StoreFault StoredFlow :=
  match t.document? id with
  | some v => readFlow t.codec v
  | none => .error (.problem (.flowNotFound id))

theorem flow?_run (id : String) (t : Table) :
    flow? id t = (match t.document? id with
      | none => .ok none
      | some v => (readFlow t.codec v).map some, t) := by
  rw [flow?, bind_ok (get_run t)]
  cases t.document? id with
  | none => rfl
  | some v =>
    simp only
    cases readFlow t.codec v <;> rfl

theorem find_run (id : String) (t : Table) : find id t = (t.flowAt id, t) := by
  have hread := flow?_run id t
  unfold find flowAt
  cases hd : t.document? id with
  | none =>
    rw [hd] at hread
    rw [bind_ok hread]
    rfl
  | some v =>
    rw [hd] at hread
    simp only at hread ⊢
    cases hv : readFlow t.codec v with
    | ok f =>
      rw [hv] at hread
      rw [bind_ok hread]
      rfl
    | error e =>
      rw [hv] at hread
      exact bind_error hread

theorem query_run (id : String) (g : StoredFlow → Answer) (t : Table) :
    (do return g (← find id) : Script Answer) t = ((t.flowAt id).map g, t) := by
  have hfind := find_run id t
  cases hr : t.flowAt id with
  | ok r =>
    rw [hr] at hfind
    exact bind_ok hfind
  | error e =>
    rw [hr] at hfind
    exact bind_error hfind

theorem create_run (f : Flow) (now : Moment) (t : Table) :
    create f now t =
      if (t.document? f.id).isSome then (.error (.problem (.flowExists f.id)), t)
      else (.ok (.flow (.new f now)),
        t.insertFlow f.id (written (StoredFlow.new f now).toJson)) := by
  have hid : (StoredFlow.new f now).id = f.id := rfl
  unfold create
  simp only [hid]
  cases hd : (t.document? f.id).isSome with
  | true =>
    refine transaction_error ?_
    rw [bind_ok (get_run t), hd]
    rfl
  | false =>
    refine transaction_ok ?_
    rw [bind_ok (get_run t), hd]
    rfl

/-- A transaction on a stored flow goes on where the flow is read, and does nothing where it
is not. -/
theorem transaction_find {g : StoredFlow → Script α} {result : StoredFlow → α}
    {after : StoredFlow → Table} (id : String) {t : Table}
    (hg : ∀ r, g r t = (.ok (result r), after r)) :
    transaction (find id >>= g) t = match t.flowAt id with
      | .ok r => (.ok (result r), after r)
      | .error e => (.error e, t) := by
  have hfind := find_run id t
  cases hr : t.flowAt id with
  | ok r =>
    rw [hr] at hfind
    exact transaction_ok ((bind_ok hfind).trans (hg r))
  | error e =>
    rw [hr] at hfind
    exact transaction_error (congrArg Prod.fst (bind_error hfind))

theorem change_run (id : String) (f : StoredFlow → StoredFlow) (t : Table) :
    change id f t = match t.flowAt id with
      | .ok r => (.ok (.flow (f r)), t.updateFlow (f r).id (written (f r).toJson))
      | .error e => (.error e, t) :=
  transaction_find id fun _ => rfl

theorem remove_run (id : String) (t : Table) :
    remove id t = match t.flowAt id with
      | .ok _ => (.ok .done, (t.deleteFlow id).deleteRuns id)
      | .error e => (.error e, t) :=
  transaction_find id fun _ => rfl

/-- The tables after a run was stored and the runs that are too old were removed. -/
def withRun (t : Table) (run : RunRecord) : Table := (t.insertRun run).trimRuns run.flowId

theorem append_run (run : RunRecord) (t : Table) :
    append run t = match t.codec.unwritable? run.toJson with
      | some reason => (.error (.unwritable reason), t)
      | none =>
        if isLimit t.limit then
          match t.document? run.flowId with
          | none => (.ok .done, t.withRun run)
          | some v =>
            match readFlow t.codec v with
            | .ok f =>
              (.ok .done, (t.withRun run).updateFlow f.id
                (written (f.ranAt run.finishedAt).toJson))
            | .error e => (.error e, t)
        else (.error .limit, t) := by
  have hcheck := checkRun_run run t
  have hlimit := checkLimit_run (t.insertRun run).limit (t.insertRun run)
  have hread := flow?_run run.flowId (t.withRun run)
  rw [show (t.withRun run).document? run.flowId = t.document? run.flowId from rfl,
    show (t.withRun run).codec = t.codec from rfl] at hread
  cases hwrite : t.codec.unwritable? run.toJson with
  | some reason =>
    rw [hwrite] at hcheck
    exact transaction_error (congrArg Prod.fst (bind_error hcheck))
  | none =>
    rw [hwrite] at hcheck
    cases hl : isLimit t.limit with
    | false =>
      rw [show isLimit (t.insertRun run).limit = false from hl] at hlimit
      -- the limit is found to be no count only after the row was inserted, and the row is
      -- taken back
      refine transaction_error ?_
      rw [bind_ok hcheck, bind_ok (modify_run _ t), bind_ok (get_run _)]
      exact congrArg Prod.fst (bind_error hlimit)
    | true =>
      rw [show isLimit (t.insertRun run).limit = true from hl] at hlimit
      -- everything up to reading the flow succeeds
      have hstart : ∀ rest : Option StoredFlow → Script Answer, (do
          checkRun run
          modify (·.insertRun run)
          checkLimit (← get).limit
          modify (·.trimRuns run.flowId)
          rest (← flow? run.flowId) :
              Script Answer) t = (flow? run.flowId >>= rest) (t.withRun run) := by
        intro rest
        rw [bind_ok hcheck, bind_ok (modify_run _ t), bind_ok (get_run _), bind_ok hlimit,
          bind_ok (modify_run _ _)]
        rfl
      cases hd : t.document? run.flowId with
      | none =>
        rw [hd] at hread
        refine transaction_ok ((hstart _).trans ?_)
        rw [bind_ok hread]
        rfl
      | some v =>
        rw [hd] at hread
        simp only at hread
        cases hv : readFlow t.codec v with
        | ok f =>
          rw [hv] at hread
          simp only [if_true, hv]
          refine transaction_ok ((hstart _).trans ?_)
          rw [bind_ok hread]
          rfl
        | error e =>
          rw [hv] at hread
          simp only [if_true, hv]
          exact transaction_error (congrArg Prod.fst ((hstart _).trans (bind_error hread)))

theorem all_run (t : Table) : all t = ((t.documents.mapM (readFlow t.codec)).map .flows, t) := by
  rw [all, bind_ok (get_run t)]
  cases t.documents.mapM (readFlow t.codec) <;> rfl

theorem history_run (id : String) (limit : Option Int) (t : Table) :
    history id limit t = (do
      let _ ← t.flowAt id
      if isLimit (limit.getD (-1)) then pure () else throw .limit
      let runs ← (t.latestRuns id (limit.getD (-1))).mapM fun r => readRun t.codec r.document
      pure (.runs runs), t) := by
  have hfind := find_run id t
  have hlimit := checkLimit_run (limit.getD (-1)) t
  unfold history
  cases hr : t.flowAt id with
  | error e =>
    rw [hr] at hfind
    exact bind_error hfind
  | ok r =>
    rw [hr] at hfind
    rw [bind_ok hfind]
    cases hl : isLimit (limit.getD (-1)) with
    | false =>
      rw [hl] at hlimit
      exact bind_error hlimit
    | true =>
      rw [hl] at hlimit
      rw [bind_ok hlimit, bind_ok (get_run t)]
      cases (t.latestRuns id (limit.getD (-1))).mapM fun r => readRun t.codec r.document <;> rfl

/-- A request changes neither the codec of the tables nor their limit. -/
theorem settings_apply (t : Table) (now : Moment) (op : Operation) :
    (t.apply now op).2.codec = t.codec ∧ (t.apply now op).2.limit = t.limit := by
  cases op with
  | create f =>
    show (create f now t).2.codec = _ ∧ (create f now t).2.limit = _
    rw [create_run]
    split <;> exact ⟨rfl, rfl⟩
  | revise id f =>
    show (change id _ t).2.codec = _ ∧ (change id _ t).2.limit = _
    rw [change_run]
    split <;> exact ⟨rfl, rfl⟩
  | remove id =>
    show (remove id t).2.codec = _ ∧ (remove id t).2.limit = _
    rw [remove_run]
    split <;> exact ⟨rfl, rfl⟩
  | find id =>
    have hsame := congrArg Prod.snd (query_run id .flow t)
    exact ⟨congrArg codec hsame, congrArg limit hsame⟩
  | all =>
    have hsame := congrArg Prod.snd (all_run t)
    exact ⟨congrArg codec hsame, congrArg limit hsame⟩
  | setEnabled id enabled =>
    show (change id _ t).2.codec = _ ∧ (change id _ t).2.limit = _
    rw [change_run]
    split <;> exact ⟨rfl, rfl⟩
  | isEnabled id =>
    have hsame := congrArg Prod.snd (query_run id (fun f => .enabled f.definition.enabled) t)
    exact ⟨congrArg codec hsame, congrArg limit hsame⟩
  | append run =>
    show (append run t).2.codec = _ ∧ (append run t).2.limit = _
    rw [append_run]
    split
    · exact ⟨rfl, rfl⟩
    · split
      · split
        · exact ⟨rfl, rfl⟩
        · split <;> exact ⟨rfl, rfl⟩
      · exact ⟨rfl, rfl⟩
  | runs id limit =>
    have hsame := congrArg Prod.snd (history_run id limit t)
    exact ⟨congrArg codec hsame, congrArg Table.limit hsame⟩

theorem codec_apply (t : Table) (now : Moment) (op : Operation) :
    (t.apply now op).2.codec = t.codec :=
  (t.settings_apply now op).1

theorem limit_apply (t : Table) (now : Moment) (op : Operation) :
    (t.apply now op).2.limit = t.limit :=
  (t.settings_apply now op).2

/-! ### Numbered rows -/

/-- The rows of the runs of a flow, in the order in which they came. -/
def runsOf (t : Table) (id : String) : List RunRow := t.runs.filter fun r => r.flowId = id

/-- The rows of runs are numbered in the order in which they came, up to the latest number
given out. -/
structure Numbered (t : Table) : Prop where
  order : t.runs.Pairwise fun r r' => r.seq < r'.seq
  bound : ∀ r ∈ t.runs, r.seq ≤ t.sequence

variable {t : Table}

theorem Numbered.runsOf (h : t.Numbered) (id : String) :
    (t.runsOf id).Pairwise fun r r' => r.seq < r'.seq := h.order.filter _

theorem Numbered.insertRun (h : t.Numbered) (run : RunRecord) : (t.insertRun run).Numbered where
  order := by
    refine List.pairwise_append.mpr ⟨h.order, List.pairwise_singleton _ _, ?_⟩
    intro r hr r' hr'
    obtain rfl := List.mem_singleton.mp hr'
    exact Nat.lt_succ_of_le (h.bound r hr)
  bound := by
    intro r hr
    rcases List.mem_append.mp hr with hr | hr
    · exact Nat.le_succ_of_le (h.bound r hr)
    · obtain rfl := List.mem_singleton.mp hr
      exact Nat.le_refl _

theorem Numbered.filter (h : t.Numbered) (p : RunRow → Bool) :
    ({ t with runs := t.runs.filter p } : Table).Numbered where
  order := h.order.filter _
  bound := fun r hr => h.bound r (List.mem_filter.mp hr).1

/-- No number stands twice. -/
theorem Numbered.seq_inj (h : t.Numbered) {id : String} {r r' : RunRow} (hr : r ∈ t.runsOf id)
    (hr' : r' ∈ t.runsOf id) (heq : r.seq = r'.seq) : r = r' := by
  have hnodup : ((t.runsOf id).map (·.seq)).Nodup :=
    List.pairwise_map.mpr ((h.runsOf id).imp fun hlt => Nat.ne_of_lt hlt)
  exact List.inj_on_of_nodup_map hnodup hr hr' heq

/-- **The latest runs of a flow are its rows from the end backwards.** -/
theorem latestRuns_eq (h : t.Numbered) (id : String) (limit : Int) :
    t.latestRuns id limit = within limit (t.runsOf id).reverse := by
  refine congrArg (within limit) ?_
  have hperm := (List.mergeSort_perm (t.runsOf id) fun r r' => decide (r'.seq ≤ r.seq)).trans
    (List.reverse_perm (t.runsOf id)).symm
  have hsorted : ((t.runsOf id).mergeSort fun r r' => decide (r'.seq ≤ r.seq)).Pairwise
      fun r r' => r'.seq ≤ r.seq := by
    have hpair := @List.pairwise_mergeSort RunRow (fun r r' => decide (r'.seq ≤ r.seq))
      (fun a b c hab hbc => by simp only [decide_eq_true_eq] at *; omega)
      (fun a b => by simp only [Bool.or_eq_true, decide_eq_true_eq]; omega) (t.runsOf id)
    exact hpair.imp fun hle => of_decide_eq_true hle
  have hreverse : (t.runsOf id).reverse.Pairwise fun r r' => r'.seq ≤ r.seq :=
    List.pairwise_reverse.mpr ((h.runsOf id).imp fun hlt => Nat.le_of_lt hlt)
  -- both lists are sorted, and no number stands twice
  refine List.Perm.eq_of_pairwise ?_ hsorted hreverse hperm
  intro r r' hr hr' hle hle'
  exact h.seq_inj (List.mem_mergeSort.mp hr) (List.mem_reverse.mp hr') (Nat.le_antisymm hle' hle)

/-- Where no number stands twice, the first rows are those whose numbers are among theirs. -/
theorem filter_contains_take {f : α → Nat} {xs : List α}
    (h : xs.Pairwise fun x y => f x ≠ f y) (n : Nat) :
    xs.filter (fun x => ((xs.take n).map f).contains (f x)) = xs.take n := by
  have hmem : ∀ x, ((xs.take n).map f).contains (f x) = true ↔ ∃ y ∈ xs.take n, f y = f x := by
    intro x
    rw [List.contains_iff_mem, List.mem_map]
  -- no number of the first rows comes again among the others
  have hcross : ∀ y ∈ xs.take n, ∀ x ∈ xs.drop n, f y ≠ f x := by
    rw [← List.take_append_drop n xs] at h
    exact (List.pairwise_append.mp h).2.2
  have htake : (xs.take n).filter (fun x => ((xs.take n).map f).contains (f x)) = xs.take n :=
    List.filter_eq_self.mpr fun x hx => (hmem x).mpr ⟨x, hx, rfl⟩
  have hdrop : (xs.drop n).filter (fun x => ((xs.take n).map f).contains (f x)) = [] := by
    refine List.filter_eq_nil_iff.mpr fun x hx hc => ?_
    obtain ⟨y, hy, hxy⟩ := (hmem x).mp hc
    exact hcross y hy x hx hxy
  calc xs.filter (fun x => ((xs.take n).map f).contains (f x))
      = (xs.take n ++ xs.drop n).filter (fun x => ((xs.take n).map f).contains (f x)) := by
        rw [List.take_append_drop]
    _ = xs.take n := by rw [List.filter_append, htake, hdrop, List.append_nil]

theorem runsOf_insertRun (run : RunRecord) (id : String) :
    (t.insertRun run).runsOf id = t.runsOf id ++
      if run.flowId = id then [⟨t.sequence + 1, run.id, run.flowId, written run.toJson⟩]
        else [] := by
  unfold runsOf insertRun
  rw [List.filter_append]
  by_cases h : run.flowId = id
  · rw [if_pos h]
    simp [h]
  · rw [if_neg h]
    simp [h]

theorem runsOf_deleteRuns (i id : String) :
    (t.deleteRuns i).runsOf id = if i = id then [] else t.runsOf id := by
  unfold runsOf deleteRuns
  rw [List.filter_filter]
  by_cases h : i = id
  · rw [if_pos h, List.filter_eq_nil_iff]
    intro r _ hr
    simp [h] at hr
  · rw [if_neg h]
    refine List.filter_congr fun r _ => ?_
    by_cases hr : r.flowId = id
    · simp [hr, Ne.symm h]
    · simp [hr]

/-- **Just the latest runs of a flow are kept.** -/
theorem runsOf_trimRuns (h : t.Numbered) (hl : 0 ≤ t.limit) (i id : String) :
    (t.trimRuns i).runsOf id =
      if i = id then ((t.runsOf id).reverse.take t.limit.toNat).reverse else t.runsOf id := by
  have hkept : t.latestRuns i t.limit = (t.runsOf i).reverse.take t.limit.toNat := by
    rw [latestRuns_eq h, within, if_neg (by omega)]
  have hne : (t.runsOf i).reverse.Pairwise fun r r' => r.seq ≠ r'.seq :=
    List.pairwise_reverse.mpr ((h.runsOf i).imp fun hlt => Nat.ne_of_gt hlt)
  -- the rows to keep are the first ones of the reversed list, and are told by their numbers
  have hfilter := filter_contains_take hne t.limit.toNat
  unfold trimRuns
  rw [hkept]
  generalize ((t.runsOf i).reverse.take t.limit.toNat).map (·.seq) = kept at hfilter ⊢
  simp only [runsOf] at hfilter ⊢
  rw [List.filter_filter]
  by_cases hi : i = id
  · subst hi
    rw [if_pos rfl, ← hfilter, List.filter_reverse, List.reverse_reverse, List.filter_filter]
    refine List.filter_congr fun r _ => ?_
    by_cases hr : r.flowId = i
    · simp [hr]
    · simp [hr]
  · rw [if_neg hi]
    refine List.filter_congr fun r _ => ?_
    by_cases hr : r.flowId = id
    · simp [hr, Ne.symm hi]
    · simp [hr]

end Cadence.Table
