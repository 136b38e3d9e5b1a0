/-
Stores that cannot be told apart.

A run changes its own flow and its own history only, so runs of different flows may be put
in in any order. What remains of the order is where histories and rows are kept, and no
answer shows that.

* `Memory.Alike` — two memories with the same flows and the same histories;
* `Memory.appends`, `Memory.appends_perm` — runs of different flows are put in, in any order;
* `Store.Alike`, `Store.Alike.run` — stores that hold the same answer all requests alike;
* `Store.Holds.run_sweeping` — what a store holds after requests that list flows and put in runs;
* `Store.Holds.answer_run` — such requests do not change what is answered about other flows;
* `Store.takes`, `Store.writes`, `Store.Holds.append_eq` — whether a store takes a run of a
  flow that it can read;
* `Store.Holds.alike_of_perm` — the order in which a store takes runs of different flows
  cannot be told.
-/
import Cadence.Proofs.Store.Edits

namespace Cadence

open Calendar

/-- A request that asks only for a flow or its history. -/
def Operation.AsksFor (id : String) : Operation → Prop
  | .find i | .isEnabled i | .runs i _ => i = id
  | _ => False

namespace Memory

variable {m m' m'' n : Memory} {now : Moment} {op : Operation} {a : Answer} {r r' : RunRecord}
  {rs rs' : List RunRecord} {id : String} {f : StoredFlow}

/-! ### Memories -/

/-- The same flows and the same histories. -/
structure Alike (m m' : Memory) : Prop where
  limit : m'.limit = m.limit
  flows : m'.flows = m.flows
  history : ∀ id, m'.history id = m.history id

theorem Alike.refl (m : Memory) : m.Alike m := ⟨rfl, rfl, fun _ => rfl⟩

theorem Alike.trans (h : m.Alike m') (h' : m'.Alike m'') : m.Alike m'' :=
  ⟨h'.limit.trans h.limit, h'.flows.trans h.flows, fun id => (h'.history id).trans (h.history id)⟩

theorem find_congr (h : m'.flows.lookup id = m.flows.lookup id) : m'.find id = m.find id := by
  rw [find, h, find]

theorem limit_append (m : Memory) (r : RunRecord) : (m.append r).limit = m.limit :=
  by rw [append_eq]

theorem flows_append (hs : (names m.flows).Nodup) (r : RunRecord) :
    (m.append r).flows = m.flows.map fun e => if e.1 = r.flowId
      then (e.1, e.2.ranAt r.finishedAt) else e := by
  rw [append_eq]
  cases hl : m.flows.lookup r.flowId with
  | none =>
    have hother :
        ∀ e ∈ m.flows, (if e.1 = r.flowId then (e.1, e.2.ranAt r.finishedAt) else e) = e :=
      fun e he => if_neg fun hid => lookup_eq_none_iff_names.mp hl (List.mem_map.mpr ⟨e, he, hid⟩)
    rw [List.map_congr_left hother, List.map_id']
  | some f =>
    refine (put_of_lookup_some hs (by rw [hl]; rfl)).trans (List.map_congr_left fun e he => ?_)
    by_cases hid : e.1 = r.flowId
    · have hflow := lookup_eq_some_of_mem hs he
      rw [hid, hl] at hflow
      rw [if_pos hid, if_pos hid, Option.some_inj.mp hflow]
    · rw [if_neg hid, if_neg hid]

theorem names_append (hs : (names m.flows).Nodup) (r : RunRecord) :
    names (m.append r).flows = names m.flows := by
  rw [flows_append hs, names, names, List.map_map]
  refine List.map_congr_left fun e _ => ?_
  show (if e.1 = r.flowId then (e.1, e.2.ranAt r.finishedAt) else e).1 = e.1
  split <;> rfl

/-- Runs of different flows are put in in either order. -/
theorem append_comm (hs : (names m.flows).Nodup) (hne : r.flowId ≠ r'.flowId) :
    ((m.append r).append r').Alike ((m.append r').append r) where
  limit := by simp only [limit_append]
  flows := by
    have hnodup (q : RunRecord) : (names (m.append q).flows).Nodup := (names_append hs q).symm ▸ hs
    rw [flows_append (hnodup r'), flows_append hs, flows_append (hnodup r),
      flows_append hs, List.map_map, List.map_map]
    refine List.map_congr_left fun e _ => ?_
    simp only [Function.comp_apply]
    -- a flow has one id, so at most one of the runs is its own
    by_cases hr : e.1 = r.flowId
    · have hr' : e.1 ≠ r'.flowId := fun hid => hne (hr.symm.trans hid)
      simp only [if_pos hr, if_neg hr']
    · by_cases hr' : e.1 = r'.flowId
      · simp only [if_pos hr', if_neg hr]
      · simp only [if_neg hr', if_neg hr]
  history := by
    intro id
    simp only [history_append, limit_append]
    by_cases hr : r.flowId = id
    · have hr' : r'.flowId ≠ id := fun hid => hne (hr.trans hid.symm)
      simp only [if_pos hr, if_neg hr']
    · simp only [if_neg hr]

theorem Alike.append (h : m.Alike m') (r : RunRecord) : (m.append r).Alike (m'.append r) where
  limit := by rw [limit_append, limit_append, h.limit]
  flows := by simp only [append_eq, h.flows]
  history := fun id => by rw [history_append, history_append, h.limit, h.history]

/-- Puts in one run after another. -/
def appends (m : Memory) (rs : List RunRecord) : Memory := rs.foldl append m

theorem Alike.appends (h : m.Alike m') (rs : List RunRecord) :
    (m.appends rs).Alike (m'.appends rs) := by
  induction rs generalizing m m' with
  | nil => exact h
  | cons r rs ih => exact ih (h.append r)

/-- **Runs of different flows may be put in in any order.** -/
theorem appends_perm (hs : (names m.flows).Nodup) (hperm : rs.Perm rs')
    (hdistinct : (rs.map (·.flowId)).Nodup) :
    (m.appends rs).Alike (m.appends rs') := by
  induction hperm generalizing m with
  | nil => exact .refl m
  | cons r _ ih => exact ih ((names_append hs r).symm ▸ hs) (List.nodup_cons.mp hdistinct).2
  | swap r r' rs =>
    have hne : r'.flowId ≠ r.flowId := by
      intro hid
      exact (List.nodup_cons.mp hdistinct).1 (List.mem_cons.mpr (Or.inl hid))
    exact (append_comm hs hne).appends rs
  | trans hfirst _ ih ih' =>
    exact (ih hs hdistinct).trans (ih' hs ((hfirst.map _).nodup_iff.mp hdistinct))

/-- A flow of which no run is put in stays as it is, and so does its history. -/
theorem appends_other (h : id ∉ rs.map (·.flowId)) :
    (m.appends rs).flows.lookup id = m.flows.lookup id ∧
      (m.appends rs).history id = m.history id := by
  induction rs generalizing m with
  | nil => exact ⟨rfl, rfl⟩
  | cons r rs ih =>
    obtain ⟨hr, hrs⟩ := not_or.mp (fun hmem => h (List.mem_cons.mpr hmem))
    obtain ⟨hflow, hhistory⟩ := ih (m := m.append r) hrs
    have hne : r.flowId ≠ id := fun hid => hr hid.symm
    rw [lookup_append, if_neg hne] at hflow
    rw [history_append, if_neg hne] at hhistory
    exact ⟨hflow, hhistory⟩

theorem definition_append (h : m.flows.lookup id = some f) (r : RunRecord) :
    ∃ g, (m.append r).flows.lookup id = some g ∧ g.definition = f.definition := by
  rw [lookup_append, h]
  split
  · exact ⟨_, rfl, rfl⟩
  · exact ⟨f, rfl, rfl⟩

theorem Sound.append (hs : m.Sound) (hr : r.WellFormed) (hnow : now.WellFormed) :
    (m.append r).Sound := by
  have hop : (Operation.append r).WellFormed := hr
  exact hs.apply hop hnow rfl

theorem Sound.appends (hs : m.Sound) (hnow : now.WellFormed) (hrs : ∀ r ∈ rs, r.WellFormed) :
    (m.appends rs).Sound := by
  induction rs generalizing m with
  | nil => exact hs
  | cons r rs ih =>
    exact ih (hs.append (hrs r List.mem_cons_self) hnow) fun q hq =>
      hrs q (List.mem_cons_of_mem r hq)

/-- Memories that are alike answer alike. -/
theorem Alike.answer_eq (h : m.Alike m') (now : Moment) (op : Operation) :
    (m'.apply now op).map Prod.fst = (m.apply now op).map Prod.fst := by
  have hfind (id : String) : m'.find id = m.find id := find_congr (by rw [h.flows])
  have hchange (id : String) (g : StoredFlow → StoredFlow) :
      (m'.change id g).map Prod.fst = (m.change id g).map Prod.fst := by
    rw [change, change, hfind]
    cases m.find id <;> rfl
  cases op with
  | create f =>
    show (m'.create f now).map Prod.fst = (m.create f now).map Prod.fst
    rw [create, create, h.flows]
    split <;> rfl
  | revise id f => exact hchange id _
  | remove id =>
    show (m'.remove id).map Prod.fst = (m.remove id).map Prod.fst
    rw [remove, remove, hfind]
    cases m.find id <;> rfl
  | find id =>
    rw [apply, apply, hfind]
    cases m.find id <;> rfl
  | all =>
    rw [apply, apply, h.flows]
    rfl
  | setEnabled id enabled => exact hchange id _
  | isEnabled id =>
    rw [apply, apply, hfind]
    cases m.find id <;> rfl
  | append r => rfl
  | runs id limit =>
    show ((m'.find id).map fun _ => _).map _ = ((m.find id).map fun _ => _).map _
    rw [hfind, h.history]
    cases m.find id <;> rfl

/-- What is answered about a flow depends on that flow and its history alone. -/
theorem answer_congr (hop : op.AsksFor id) (hflow : m'.flows.lookup id = m.flows.lookup id)
    (hhistory : m'.history id = m.history id) :
    (m'.apply now op).map Prod.fst = (m.apply now op).map Prod.fst := by
  have hfind := find_congr hflow
  cases op with
  | find i =>
    obtain rfl : i = id := hop
    rw [apply, apply, hfind]
    cases m.find i <;> rfl
  | isEnabled i =>
    obtain rfl : i = id := hop
    rw [apply, apply, hfind]
    cases m.find i <;> rfl
  | runs i limit =>
    obtain rfl : i = id := hop
    show ((m'.find i).map fun _ => _).map _ = ((m.find i).map fun _ => _).map _
    rw [hfind, hhistory]
    cases m.find i <;> rfl
  | _ => exact hop.elim

theorem Alike.apply (h : m.Alike m') {x x' : Answer × Memory} (hx : m.apply now op = .ok x)
    (hx' : m'.apply now op = .ok x') : x.2.Alike x'.2 where
  limit := by rw [limit_of_apply hx, limit_of_apply hx', h.limit]
  history := by
    intro id
    rw [history_apply hx, history_apply hx', h.history, h.limit]
    cases op <;> rfl
  flows := by
    obtain ⟨a, n⟩ := x
    obtain ⟨a', n'⟩ := x'
    cases op with
    | create f =>
      obtain ⟨_, _, rfl⟩ := create_ok.mp hx
      obtain ⟨_, _, rfl⟩ := create_ok.mp hx'
      exact congrArg (put f.id _) h.flows
    | revise id f =>
      obtain ⟨r, hr, _, rfl⟩ := change_ok.mp hx
      obtain ⟨r', hr', _, rfl⟩ := change_ok.mp hx'
      rw [h.flows, hr] at hr'
      obtain rfl := Option.some_inj.mp hr'
      exact congrArg (put id _) h.flows
    | remove id =>
      obtain ⟨_, _, rfl⟩ := remove_ok.mp hx
      obtain ⟨_, _, rfl⟩ := remove_ok.mp hx'
      exact congrArg (List.filter _) h.flows
    | setEnabled id enabled =>
      obtain ⟨r, hr, _, rfl⟩ := change_ok.mp hx
      obtain ⟨r', hr', _, rfl⟩ := change_ok.mp hx'
      rw [h.flows, hr] at hr'
      obtain rfl := Option.some_inj.mp hr'
      exact congrArg (put id _) h.flows
    | append r =>
      obtain ⟨_, rfl⟩ := Prod.mk.inj (Except.ok.inj hx)
      obtain ⟨_, rfl⟩ := Prod.mk.inj (Except.ok.inj hx')
      exact (h.append r).flows
    | find id =>
      obtain ⟨_, _, _, rfl⟩ := query_ok.mp hx
      obtain ⟨_, _, _, rfl⟩ := query_ok.mp hx'
      exact h.flows
    | isEnabled id =>
      obtain ⟨_, _, _, rfl⟩ := query_ok.mp hx
      obtain ⟨_, _, _, rfl⟩ := query_ok.mp hx'
      exact h.flows
    | all =>
      obtain ⟨_, rfl⟩ := Prod.mk.inj (Except.ok.inj hx)
      obtain ⟨_, rfl⟩ := Prod.mk.inj (Except.ok.inj hx')
      exact h.flows
    | runs id limit =>
      obtain ⟨_, _, _, rfl⟩ := query_ok.mp hx
      obtain ⟨_, _, _, rfl⟩ := query_ok.mp hx'
      exact h.flows

end Memory

/-! ### Tables -/

namespace Table

variable {t t' : Table} {m m' : Memory} {now : Moment} {op : Operation} {id : String}

theorem Holds.congr (h : t.Holds m) (halike : m.Alike m') : t.Holds m' where
  limit := h.limit.trans halike.limit.symm
  flows := by rw [h.flows, halike.flows]
  runs := fun id => by rw [h.runs, halike.history]
  numbered := h.numbered

section

variable (h : t.Holds m) (h' : t'.Holds m') (hcodec : t'.codec = t.codec)

include h h' hcodec

theorem Holds.flowAt_congr (hflow : m'.flows.lookup id = m.flows.lookup id) :
    t'.flowAt id = t.flowAt id := by
  rw [flowAt, flowAt, h.document?_eq, h'.document?_eq, hflow, hcodec]

theorem Holds.history_congr (hflow : m'.flows.lookup id = m.flows.lookup id)
    (hhistory : m'.history id = m.history id) (limit : Option Int) :
    (Table.history id limit t').1 = (Table.history id limit t).1 := by
  have hread (u : Table) (n : Int) :
      ((u.latestRuns id n).mapM fun r => readRun t.codec r.document) =
      ((u.latestRuns id n).map (·.document)).mapM (readRun t.codec) := by
    rw [List.mapM_map]
    rfl
  rw [history_run, history_run, h.flowAt_congr h' hcodec hflow, hcodec]
  simp only [hread, h.documents_of_runs, h'.documents_of_runs, hhistory]

/-- What is answered about a flow depends on that flow and its history alone. -/
theorem Holds.answer_congr (hop : op.AsksFor id) (hflow : m'.flows.lookup id = m.flows.lookup id)
    (hhistory : m'.history id = m.history id) :
    (t'.apply now op).1 = (t.apply now op).1 := by
  have hquery (i : String) (hi : i = id) (g : StoredFlow → Answer) :
      ((do return g (← find i) : Script Answer) t').1 =
        ((do return g (← find i) : Script Answer) t).1 := by
    rw [query_run, query_run, hi, h.flowAt_congr h' hcodec hflow]
  cases op with
  | find i => exact hquery i hop .flow
  | isEnabled i => exact hquery i hop fun f => .enabled f.definition.enabled
  | runs i limit =>
    obtain rfl : i = id := hop
    exact h.history_congr h' hcodec hflow hhistory limit
  | _ => exact hop.elim

end

section

variable (h : t.Holds m) (h' : t'.Holds m) (hcodec : t'.codec = t.codec)

include h h' hcodec

/-- **Tables that hold the same answer alike.** -/
theorem Holds.answer_eq (now : Moment) (op : Operation) :
    (t'.apply now op).1 = (t.apply now op).1 := by
  have hflow (id : String) : t'.flowAt id = t.flowAt id := h.flowAt_congr h' hcodec rfl
  have hdocument (id : String) : t'.document? id = t.document? id := by
    rw [h.document?_eq, h'.document?_eq]
  have hchange (id : String) (g : StoredFlow → StoredFlow) :
      (Table.change id g t').1 = (Table.change id g t).1 := by
    rw [change_run, change_run, hflow]
    cases t.flowAt id <;> rfl
  have hquery (id : String) (g : StoredFlow → Answer) :
      ((do return g (← find id) : Script Answer) t').1 =
        ((do return g (← find id) : Script Answer) t).1 := by
    rw [query_run, query_run, hflow]
  cases op with
  | create f =>
    show (Table.create f now t').1 = (Table.create f now t).1
    rw [create_run, create_run, hdocument]
    split <;> rfl
  | revise id f => exact hchange id _
  | remove id =>
    show (Table.remove id t').1 = (Table.remove id t).1
    rw [remove_run, remove_run, hflow]
    cases t.flowAt id <;> rfl
  | find id => exact hquery id .flow
  | all =>
    show (Table.all t').1 = (Table.all t).1
    rw [all_run, all_run, h.documents_eq, h'.documents_eq, hcodec]
  | setEnabled id enabled => exact hchange id _
  | isEnabled id => exact hquery id fun f => .enabled f.definition.enabled
  | append r =>
    show (Table.append r t').1 = (Table.append r t).1
    rw [append_run, append_run, h.limit, h'.limit, hdocument, hcodec]
    split
    · rfl
    · split
      · cases t.document? r.flowId with
        | none => rfl
        | some v =>
          simp only
          cases readFlow t.codec v <;> rfl
      · rfl
  | runs id limit => exact h.history_congr h' hcodec rfl rfl limit

theorem Holds.apply_both (hs : m.Sound) (hop : op.WellFormed) (hnow : now.WellFormed) :
    ∃ n, n.Sound ∧ (t.apply now op).2.Holds n ∧ (t'.apply now op).2.Holds n := by
  have hanswer := h.answer_eq h' hcodec now op
  cases ha : (t.apply now op).1 with
  | error e =>
    rw [ha] at hanswer
    have hsame : (t.apply now op).2 = t := of_error (Prod.ext ha rfl)
    have hsame' : (t'.apply now op).2 = t' := of_error (Prod.ext hanswer rfl)
    exact ⟨m, hs, hsame.symm ▸ h, hsame'.symm ▸ h'⟩
  | ok a =>
    rw [ha] at hanswer
    obtain ⟨_, n, hn, hholds⟩ := h.of_ok hs (Prod.ext ha rfl)
    obtain ⟨_, n', hn', hholds'⟩ := h'.of_ok hs (Prod.ext hanswer rfl)
    -- the memory makes one thing of the request
    obtain ⟨_, rfl⟩ := Prod.mk.inj (Except.ok.inj (hn.symm.trans hn'))
    exact ⟨n, hs.apply hop hnow hn, hholds, hholds'⟩

end

end Table

/-! ### Stores -/

/-- A request that lists the flows or puts in a run. -/
def Operation.isSweeping : Operation → Bool
  | .all | .append _ => true
  | _ => false

/-- The runs that were put into histories, in order. -/
def Journal.puts (j : Journal) : List RunRecord := j.filterMap Entry.put?

namespace Store

variable {s s' : Store} {m m' : Memory} {now : Moment} {op : Operation} {id : String}
  {f : StoredFlow} {r : RunRecord} {rs : List RunRecord}
  {asked asked' : List (Moment × Operation)}

/-- Stores of one kind that hold the same. -/
inductive Alike : Store → Store → Prop where
  | memory {m m' : Memory} (h : m.Alike m') : Alike (.memory m) (.memory m')
  | table {t t' : Table} {m : Memory} (hs : m.Sound) (h : t.Holds m) (h' : t'.Holds m)
      (hcodec : t'.codec = t.codec) : Alike (.table t) (.table t')

theorem answer_memory (m : Memory) (now : Moment) (op : Operation) :
    ((Store.memory m).apply now op).1 = (m.apply now op).map Prod.fst := by
  rw [apply]
  cases m.apply now op <;> rfl

/-- **Stores that hold the same answer alike, and hold the same again.** -/
theorem Alike.apply (h : s.Alike s') (hop : op.WellFormed) (hnow : now.WellFormed) :
    (s'.apply now op).1 = (s.apply now op).1 ∧ (s.apply now op).2.Alike (s'.apply now op).2 := by
  cases h with
  | @memory m m' h =>
    have hanswer := h.answer_eq now op
    rw [Store.apply, Store.apply]
    cases ha : m.apply now op with
    | error e =>
      rw [ha] at hanswer
      cases ha' : m'.apply now op with
      | error e' =>
        rw [ha'] at hanswer
        exact ⟨hanswer, .memory h⟩
      | ok r =>
        rw [ha'] at hanswer
        cases hanswer
    | ok r =>
      rw [ha] at hanswer
      cases ha' : m'.apply now op with
      | error e' =>
        rw [ha'] at hanswer
        cases hanswer
      | ok r' =>
        rw [ha'] at hanswer
        exact ⟨hanswer, .memory (h.apply ha ha')⟩
  | @table t t' _ hs h h' hcodec =>
    obtain ⟨n, hn, hholds, hholds'⟩ := h.apply_both h' hcodec hs hop hnow
    refine ⟨h.answer_eq h' hcodec now op, .table hn hholds hholds' ?_⟩
    rw [Table.codec_apply, Table.codec_apply, hcodec]

theorem run_cons (s : Store) (now : Moment) (op : Operation) (rest : List (Moment × Operation)) :
    s.run ((now, op) :: rest) = (⟨now, op, (s.apply now op).1⟩ :: ((s.apply now op).2.run rest).1,
      ((s.apply now op).2.run rest).2) := rfl

theorem run_append (s : Store) (asked asked' : List (Moment × Operation)) :
    s.run (asked ++ asked') =
      ((s.run asked).1 ++ ((s.run asked).2.run asked').1, ((s.run asked).2.run asked').2) := by
  induction asked generalizing s with
  | nil => rfl
  | cons q rest ih =>
    obtain ⟨now, op⟩ := q
    rw [List.cons_append, run_cons, run_cons, ih, List.cons_append]

/-- **Stores that hold the same cannot be told apart by any requests.** -/
theorem Alike.run (h : s.Alike s') (ha : AreWellFormed asked) :
    (s'.run asked).1 = (s.run asked).1 := by
  induction asked generalizing s s' with
  | nil => rfl
  | cons q rest ih =>
    obtain ⟨now, op⟩ := q
    obtain ⟨hnow, hop⟩ := ha _ List.mem_cons_self
    obtain ⟨hanswer, hnext⟩ : (s'.apply now op).1 = (s.apply now op).1 ∧ _ := h.apply hop hnow
    rw [run_cons, run_cons, hanswer, ih hnext fun q hq => ha q (List.mem_cons_of_mem _ hq)]

/-! ### The requests of sweeps -/

theorem apply_error {e : StoreFault} (h : (s.apply now op).1 = .error e) :
    (s.apply now op).2 = s := by
  cases s with
  | memory m =>
    rw [apply] at h ⊢
    cases ha : m.apply now op with
    | ok r => rw [ha] at h; cases h
    | error e => rfl
  | table t => exact congrArg Store.table (Table.of_error (Prod.ext h rfl))
  | remote => rfl

theorem apply_all (s : Store) (now : Moment) : (s.apply now .all).2 = s := by
  cases s with
  | memory m => rfl
  | table t => exact congrArg (Store.table ·.2) (Table.all_run t)
  | remote => rfl

theorem Holds.of_append (h : s.Holds m) (hs : m.Sound) {a : Answer}
    (ha : (s.apply now (.append r)).1 = .ok a) :
    (s.apply now (.append r)).2.Holds (m.append r) := by
  cases s with
  | memory m₀ =>
    obtain rfl : m₀ = m := h
    rfl
  | table t => exact (Table.Holds.of_append h hs (Prod.ext ha rfl)).2
  | remote => exact h.elim

/-- **What a store holds after requests that list flows and put in runs are the runs that
were put in.** -/
theorem Holds.run_sweeping (h : s.Holds m) (hs : m.Sound) (ha : AreWellFormed asked)
    (hsweeping : ∀ q ∈ asked, q.2.isSweeping = true) :
    (s.run asked).2.Holds (m.appends (s.run asked).1.puts) := by
  induction asked generalizing s m with
  | nil => exact h
  | cons q rest ih =>
    obtain ⟨now, op⟩ := q
    obtain ⟨hnow, hop⟩ := ha _ List.mem_cons_self
    have hrest : AreWellFormed rest := fun q hq => ha q (List.mem_cons_of_mem _ hq)
    have hsweep : ∀ q ∈ rest, q.2.isSweeping = true :=
      fun q hq => hsweeping q (List.mem_cons_of_mem _ hq)
    have hop' : op.isSweeping = true := hsweeping _ List.mem_cons_self
    have hputs (x : Option RunRecord) (hx : Entry.put? ⟨now, op, (s.apply now op).1⟩ = x) :
        (s.run ((now, op) :: rest)).1.puts = x.toList ++ ((s.apply now op).2.run rest).1.puts := by
      rw [run_cons, Journal.puts, List.filterMap_cons, hx]
      cases x <;> rfl
    cases op with
    | all =>
      rw [hputs none rfl]
      have hsame := ih (s.apply_all now ▸ h) hs hrest hsweep
      exact hsame
    | append r =>
      cases hanswer : (s.apply now (.append r)).1 with
      | ok a =>
        rw [hputs (some r) (by rw [hanswer]; rfl)]
        exact ih (h.of_append hs hanswer) (hs.append hop hnow) hrest hsweep
      | error e =>
        rw [hputs none (by rw [hanswer]; rfl)]
        have hsame := ih (apply_error hanswer ▸ h) hs hrest hsweep
        exact hsame
    | _ => cases hop'

/-- What is answered about a flow after requests that put in runs of other flows is what was
answered before. -/
theorem Holds.answer_run (h : s.Holds m) (hs : m.Sound) (ha : AreWellFormed asked)
    (hsweeping : ∀ q ∈ asked, q.2.isSweeping = true)
    (hother : id ∉ (s.run asked).1.puts.map (·.flowId)) (hop : op.AsksFor id) :
    ((s.run asked).2.apply now op).1 = (s.apply now op).1 := by
  have hholds := h.run_sweeping hs ha hsweeping
  obtain ⟨hflow, hhistory⟩ := Memory.appends_other (m := m) hother
  cases s with
  | memory m₀ =>
    obtain rfl : m₀ = m := h
    obtain ⟨n, hn⟩ := run_memory m₀ asked
    rw [hn] at hholds ⊢
    obtain rfl : n = _ := hholds
    rw [answer_memory, answer_memory, Memory.answer_congr hop hflow hhistory]
  | table t =>
    obtain ⟨u, hu, hcodec⟩ := run_table t asked
    rw [hu] at hholds ⊢
    exact Table.Holds.answer_congr h hholds hcodec hop hflow hhistory
  | remote => exact h.elim

/-- The flows that a store lists are those that it holds, and it can read them. -/
theorem Holds.listed (h : s.Holds m) (hs : m.Sound) {fs : List StoredFlow}
    (ha : (s.apply now .all).1 = .ok (.flows fs)) :
    ∀ f ∈ fs, m.flows.lookup f.id = some f ∧ s.Reads f.definition.toJson := by
  obtain ⟨fs', hfs, hperm⟩ := h.all_ok hs ha
  obtain rfl := Answer.flows.inj hfs
  intro f hf
  refine ⟨Memory.lookup_of_mem hs (hperm.mem_iff.mp hf), ?_⟩
  cases s with
  | memory m₀ => exact True.intro
  | table t =>
    have hread := Table.Holds.toOption_all h hs
    rw [show (Table.all t).1 = .ok (.flows fs) from ha] at hread
    split at hread
    · next hall => exact List.all_eq_true.mp hall f (hperm.mem_iff.mp hf)
    · cases hread
  | remote => exact h.elim

/-! ### Whether runs are taken -/

/-- Whether a store takes runs: tables do if their limit is one that they know. -/
def takes : Store → Bool
  | .memory _ => true
  | .table t => Table.isLimit t.limit
  | .remote => false

/-- Why a store cannot write a run down; only tables do so at all. -/
def unwritable? : Store → RunRecord → Option String
  | .table t, r => t.codec.unwritable? r.toJson
  | _, _ => none

/-- Whether a store can write a run down, if it does so at all. -/
def writes (s : Store) (r : RunRecord) : Bool := (s.unwritable? r).isNone

theorem takes_apply (s : Store) (now : Moment) (op : Operation) :
    (s.apply now op).2.takes = s.takes := by
  cases s with
  | memory m =>
    rw [apply]
    cases m.apply now op <;> rfl
  | table t => exact congrArg Table.isLimit (t.limit_apply now op)
  | remote => rfl

theorem writes_apply (s : Store) (now : Moment) (op : Operation) :
    (s.apply now op).2.writes = s.writes := by
  funext r
  cases s with
  | memory m =>
    rw [apply]
    cases m.apply now op <;> rfl
  | table t =>
    exact congrArg (fun c : Codec => (c.unwritable? r.toJson).isNone) (t.codec_apply now op)
  | remote => rfl

/-- **A run of a flow that a store can read is put in just if the store can write it and
takes runs.** -/
theorem Holds.append_eq (h : s.Holds m) (hs : m.Sound) (hf : m.flows.lookup r.flowId = some f)
    (hread : s.Reads f.definition.toJson) (now : Moment) :
    (s.apply now (.append r)).1 = match s.unwritable? r with
      | some reason => .error (.unwritable reason)
      | none => if s.takes then .ok .done else .error .limit := by
  cases s with
  | memory m₀ => rfl
  | table t =>
    have hflow := Table.Holds.flowAt_ok h hs hf hread
    show (Table.append r t).1 = match t.codec.unwritable? r.toJson with
      | some reason => .error (.unwritable reason)
      | none => if Table.isLimit t.limit then .ok .done else .error .limit
    rw [Table.append_run]
    cases t.codec.unwritable? r.toJson with
    | some reason => rfl
    | none =>
      simp only
      split
      · unfold Table.flowAt at hflow
        cases hd : t.document? r.flowId with
        | none => rfl
        | some v =>
          rw [hd] at hflow
          simp only at hflow ⊢
          rw [hflow]
      · rfl
  | remote => exact h.elim

theorem Holds.append_isSome (h : s.Holds m) (hs : m.Sound) (hf : m.flows.lookup r.flowId = some f)
    (hread : s.Reads f.definition.toJson) (now : Moment) :
    (s.apply now (.append r)).1.toOption.isSome = (s.takes && s.writes r) := by
  rw [h.append_eq hs hf hread, writes]
  cases s.unwritable? r <;> cases s.takes <;> rfl

/-- After requests that put in runs, a run of a flow is still put in just if the store took
it before. -/
theorem Holds.entry_answered (h : s.Holds m) (hs : m.Sound) (ha : AreWellFormed asked)
    (hsweeping : ∀ q ∈ asked, q.2.isSweeping = true) {e : Entry} (he : e ∈ (s.run asked).1)
    (hop : e.operation = .append r) (hf : m.flows.lookup r.flowId = some f)
    (hread : s.Reads f.definition.toJson) : e.isAnswered = (s.takes && s.writes r) := by
  induction asked generalizing s m f with
  | nil => cases he
  | cons q rest ih =>
    obtain ⟨now, op⟩ := q
    obtain ⟨hnow, hwell⟩ := ha _ List.mem_cons_self
    have hrest : AreWellFormed rest := fun q hq => ha q (List.mem_cons_of_mem _ hq)
    have hsweep : ∀ q ∈ rest, q.2.isSweeping = true :=
      fun q hq => hsweeping q (List.mem_cons_of_mem _ hq)
    have hop' : op.isSweeping = true := hsweeping _ List.mem_cons_self
    rw [run_cons] at he
    rcases List.mem_cons.mp he with rfl | he
    · obtain rfl : op = .append r := hop
      exact h.append_isSome hs hf hread now
    · rw [← s.takes_apply now op, ← s.writes_apply now op]
      rw [← reads_apply s now op] at hread
      cases op with
      | all =>
        have hnext : (s.apply now .all).2.Holds m := (s.apply_all now).symm ▸ h
        exact ih hnext hs hrest hsweep he hf hread
      | append q =>
        cases hanswer : (s.apply now (.append q)).1 with
        | ok a =>
          obtain ⟨g, hg, hsame⟩ := Memory.definition_append hf q
          exact ih (h.of_append hs hanswer) (hs.append hwell hnow) hrest hsweep he hg
            (hsame ▸ hread)
        | error e =>
          have hnext : (s.apply now (.append q)).2.Holds m := (apply_error hanswer).symm ▸ h
          exact ih hnext hs hrest hsweep he hf hread
      | _ => cases hop'

/-- A run that a store takes: the store can write it down, and can read its flow. -/
structure Takes (s : Store) (m : Memory) (r : RunRecord) : Prop where
  wellFormed : r.WellFormed
  takes : s.takes = true
  writes : s.writes r = true
  read : ∃ f, m.flows.lookup r.flowId = some f ∧ s.Reads f.definition.toJson

/-- A store takes all runs that it takes one by one. -/
theorem Holds.puts_run (h : s.Holds m) (hs : m.Sound) (hnow : now.WellFormed)
    (hrs : ∀ r ∈ rs, s.Takes m r) :
    (s.run (rs.map fun r => (now, .append r))).1.puts = rs := by
  induction rs generalizing s m with
  | nil => rfl
  | cons r rs ih =>
    obtain ⟨hr, htakes, hwrites, f, hf, hread⟩ := hrs r List.mem_cons_self
    have hsome := h.append_isSome hs hf hread now
    rw [htakes, hwrites, Bool.and_self] at hsome
    obtain ⟨a, ha⟩ := Option.isSome_iff_exists.mp hsome
    have hrest := ih (h.of_append hs (toOption_eq_some.mp ha)) (hs.append hr hnow) fun q hq => by
      obtain ⟨hq, htakes, hwrites, g, hg, hreadg⟩ := hrs q (List.mem_cons_of_mem r hq)
      obtain ⟨g', hg', hsame⟩ := Memory.definition_append hg r
      exact ⟨hq, (s.takes_apply now _).trans htakes, by rw [writes_apply]; exact hwrites, g', hg',
        by rw [reads_apply, hsame]; exact hreadg⟩
    have hput : Entry.put? ⟨now, .append r, (s.apply now (.append r)).1⟩ = some r :=
      Entry.put?_some.mpr ⟨rfl, hsome⟩
    rw [List.map_cons, run_cons, Journal.puts, List.filterMap_cons, hput]
    exact congrArg (r :: ·) hrest

theorem alike_run (h : (s.run asked).2.Holds m) (h' : (s.run asked').2.Holds m')
    (halike : m.Alike m') (hs : m'.Sound) : (s.run asked).2.Alike (s.run asked').2 := by
  cases s with
  | memory m₀ =>
    obtain ⟨n, hn⟩ := run_memory m₀ asked
    obtain ⟨n', hn'⟩ := run_memory m₀ asked'
    rw [hn] at h ⊢
    rw [hn'] at h' ⊢
    obtain rfl : n = m := h
    obtain rfl : n' = m' := h'
    exact .memory halike
  | table t =>
    obtain ⟨u, hu, hcodec⟩ := run_table t asked
    obtain ⟨u', hu', hcodec'⟩ := run_table t asked'
    rw [hu] at h ⊢
    rw [hu'] at h' ⊢
    exact .table hs (Table.Holds.congr h halike) h' (hcodec'.trans hcodec.symm)
  | remote =>
    have hremote : ∀ rest, (Store.remote.run rest).2 = .remote := by
      intro rest
      induction rest with
      | nil => rfl
      | cons q rest ih => exact ih
    rw [hremote] at h
    exact h.elim

/-- **The order in which a store takes runs of different flows cannot be told.** -/
theorem Holds.alike_of_perm (h : s.Holds m) (hs : m.Sound) (ha : AreWellFormed asked)
    (hsweeping : ∀ q ∈ asked, q.2.isSweeping = true) (hperm : (s.run asked).1.puts.Perm rs)
    (hdistinct : (rs.map (·.flowId)).Nodup) (hnow : now.WellFormed) (hrs : ∀ r ∈ rs, s.Takes m r) :
    (s.run asked).2.Alike (s.run (rs.map fun r => (now, .append r))).2 := by
  have hwf : AreWellFormed (rs.map fun r => (now, .append r)) := by
    intro q hq
    obtain ⟨r, hr, rfl⟩ := List.mem_map.mp hq
    exact ⟨hnow, (hrs r hr).wellFormed⟩
  have hsweep : ∀ q ∈ rs.map fun r => (now, Operation.append r), q.2.isSweeping = true := by
    intro q hq
    obtain ⟨r, _, rfl⟩ := List.mem_map.mp hq
    rfl
  have hputs : (s.run (rs.map fun r => (now, .append r))).1.puts = rs := h.puts_run hs hnow hrs
  have hholds := h.run_sweeping hs hwf hsweep
  rw [hputs] at hholds
  refine alike_run (h.run_sweeping hs ha hsweeping) hholds ?_
    (hs.appends hnow fun r hr => (hrs r hr).wellFormed)
  exact Memory.appends_perm hs.single hperm ((hperm.map _).nodup_iff.mpr hdistinct)

end Store

end Cadence
