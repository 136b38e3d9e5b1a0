/-
Stores follow their journals.

* `Memory.Follows` — every flow and every history is what a journal makes of it: its
  definition by the edits alone, the end of its latest run by the runs alone, and its
  history by the runs alone;
* `Store.Holds` — a store of either kind holds what a memory holds;
* `Store.Holds.find_iff`, `Store.Holds.all_ok`, `Store.Holds.runs_iff`,
  `Store.Holds.runs_ok` — what such a store gives out is what is in memory, as far as the
  store can read it;
* `Store.Holds.becomes` — what such a store holds after a request is what the memory becomes;
* `Store.apply_finite` — tables and the finite memory that they hold answer and change alike;
* `Store.Holds.step`, `Store.Holds.run` — a store that holds what a sound memory holds follows its
  journal, request by request and over any row of requests.
-/
import Cadence.Proofs.Store.Answers
import Cadence.Store.Backend

namespace Cadence

open Calendar

/-! ### Following a journal -/

/-- What a memory becomes by the requests of a journal. -/
structure Memory.Follows (m : Memory) (j : Journal) (m' : Memory) : Prop where
  limit : m'.limit = m.limit
  flow : ∀ id r last, m.flows.lookup id = r.map (·.withLastRun last) →
    m'.flows.lookup id = (j.edited id r).map (·.withLastRun (j.lastRun id last))
  history : ∀ id runs, m.history id = runs.take m.limit.toNat →
    m'.history id = (j.appended id runs).take m.limit.toNat

namespace Memory.Follows

variable {m m' m'' : Memory} {j j' : Journal} {now : Moment} {op : Operation}

theorem refl (m : Memory) : m.Follows [] m := ⟨rfl, fun _ _ _ h => h, fun _ _ h => h⟩

theorem trans (h : m.Follows j m') (h' : m'.Follows j' m'') : m.Follows (j ++ j') m'' where
  limit := h'.limit.trans h.limit
  flow := by
    intro id r last hr
    rw [Journal.edited, Journal.lastRun, List.foldl_append, List.foldl_append]
    exact h'.flow id _ _ (h.flow id r last hr)
  history := by
    intro id runs hr
    rw [Journal.appended, List.foldl_append, ← h.limit]
    refine h'.history id _ ?_
    rw [h.limit]
    exact h.history id runs hr

/-- A request that is refused has no consequences. -/
theorem of_error (m : Memory) (now : Moment) (op : Operation) (e : StoreFault) :
    m.Follows [⟨now, op, .error e⟩] m := ⟨rfl, fun _ _ _ h => h, fun _ _ h => h⟩

theorem of_ok (hs : m.Sound) {a : Answer} (h : m.apply now op = .ok (a, m')) (a' : Answer) :
    m.Follows [⟨now, op, .ok a'⟩] m' where
  limit := Memory.limit_of_apply h
  flow := fun _ _ _ hr => Memory.lookup_of_apply h hr
  history := fun _ _ hr => Memory.history_of_apply hs h hr

end Memory.Follows

/-! ### Stores of either kind -/

/-- A store that holds what a memory holds. -/
def Store.Holds : Store → Memory → Prop
  | .memory m', m => m' = m
  | .table t, m => t.Holds m
  | .remote, _ => False

/-- New stores of either kind hold nothing. -/
theorem Store.holds_empty {s : Store} {codec : Codec} {limit : Int}
    (h : s = .memory (.empty limit) ∨ s = .table (.empty codec limit)) :
    s.Holds (.empty limit) := by
  rcases h with rfl | rfl
  · exact rfl
  · exact Table.holds_empty codec limit

namespace Store

variable {s : Store} {m : Memory} {now : Moment} {op : Operation}

/-- What a store can give out again: in memory anything, in tables what the codec keeps. -/
def Reads : Store → Json → Prop
  | .memory _, _ => True
  | .table t, v => t.codec.keeps v = true
  | .remote, _ => False

/-- The flows that are given out are those in memory, as far as the store can read them. -/
theorem Holds.find_iff (h : s.Holds m) (hs : m.Sound) {id : String} {f : StoredFlow} :
    (s.apply now (.find id)).1 = .ok (.flow f) ↔ m.flows.lookup id = some f ∧
      s.Reads f.definition.toJson := by
  cases s with
  | memory m₀ =>
    obtain rfl : m₀ = m := h
    have hfind : ((Store.memory m₀).apply now (.find id)).1 = (m₀.find id).map .flow := by
      rw [apply, show m₀.apply now (.find id) = (m₀.find id).map fun f => (.flow f, m₀) from rfl]
      cases m₀.find id <;> rfl
    rw [hfind, ← Memory.find_ok]
    cases m₀.find id with
    | error e => simp [Except.map]
    | ok g => simp [Except.map, Reads]
  | table t =>
    have hfind : ((Store.table t).apply now (.find id)).1 = (t.flowAt id).map .flow :=
      congrArg Prod.fst (Table.query_run id .flow t)
    rw [hfind]
    obtain ⟨hl, hr⟩ | ⟨r, hl, hkeeps, hr⟩ | ⟨r, e, hl, hbad, hr⟩ := Table.Holds.find_cases h hs id
    · rw [hl, hr]
      simp [Except.map]
    · rw [hl, hr]
      constructor
      · intro heq
        obtain rfl := Answer.flow.inj (Except.ok.inj heq)
        exact ⟨rfl, hkeeps⟩
      · rintro ⟨heq, _⟩
        rw [Option.some_inj.mp heq]
        rfl
    · rw [hl, hr]
      constructor
      · intro heq
        cases heq
      · rintro ⟨heq, hkeeps⟩
        obtain rfl := Option.some_inj.mp heq
        cases hbad.symm.trans hkeeps
  | remote => exact h.elim

/-- A flow that is given out is the one in memory. -/
theorem Holds.find_ok (h : s.Holds m) (hs : m.Sound) {id : String} {a : Answer}
    (ha : (s.apply now (.find id)).1 = .ok a) : ∃ f, a = .flow f ∧ m.flows.lookup id = some f := by
  have hflow : ∃ f, a = .flow f := by
    cases s with
    | memory m₀ =>
      rw [apply, show m₀.apply now (.find id) = (m₀.find id).map fun f => (.flow f, m₀) from rfl]
        at ha
      cases hfind : m₀.find id with
      | error e => rw [hfind] at ha; cases ha
      | ok f => rw [hfind] at ha; exact ⟨f, (Except.ok.inj ha).symm⟩
    | table t =>
      replace ha := (congrArg Prod.fst (Table.query_run id .flow t)).symm.trans ha
      cases hfind : t.flowAt id with
      | error e => rw [hfind] at ha; cases ha
      | ok f => rw [hfind] at ha; exact ⟨f, (Except.ok.inj ha).symm⟩
    | remote => exact h.elim
  obtain ⟨f, rfl⟩ := hflow
  exact ⟨f, rfl, ((h.find_iff hs).mp ha).1⟩

/-- A memory gives out the history of a stored flow as far as it is asked for, and does not
change. -/
theorem apply_memory_runs (m : Memory) (now : Moment) (id : String) (limit : Option Int) :
    (memory m).apply now (.runs id limit) =
      ((m.find id).map fun _ => .runs (askedPart limit (m.history id)), memory m) := by
  rw [apply, show m.apply now (.runs id limit) =
    (m.find id).map fun _ => (.runs (askedPart limit (m.history id)), m) from rfl]
  cases m.find id <;> rfl

/-- The history of a flow that the store can read is given out as it is in memory, if the
store can read all of it. -/
theorem Holds.runs_iff (h : s.Holds m) (hs : m.Sound) {id : String} {f : StoredFlow}
    (hf : m.flows.lookup id = some f) (hread : s.Reads f.definition.toJson) :
    (s.apply now (.runs id none)).1 = .ok (.runs (m.history id)) ↔
      ∀ run ∈ m.history id, s.Reads run.toJson := by
  cases s with
  | memory m₀ =>
    obtain rfl : m₀ = m := h
    rw [apply_memory_runs, Memory.find_ok.mpr hf]
    simp [Except.map, Reads, askedPart]
  | table t =>
    have hflow := Table.Holds.flowAt_ok h hs hf hread
    have hanswer := Table.Holds.toOption_history h hs hflow
      (show IsCount none from fun _ h => by cases h)
    show (Table.history id none t).1 = .ok (.runs (m.history id)) ↔
      ∀ run ∈ m.history id, t.codec.keeps run.toJson = true
    rw [← toOption_eq_some, hanswer]
    show (if (m.history id).all t.codec.returns then
      some (.runs ((m.history id).map RunRecord.filed))
        else none) = some (Answer.runs (m.history id)) ↔ _
    constructor
    · intro heq run hrun
      split at heq
      · rename_i hreturns
        have hsame := Answer.runs.inj (Option.some_inj.mp heq)
        refine Codec.keeps_run.mpr ⟨?_, List.all_eq_true.mp hreturns run hrun⟩
        exact List.map_inj_left.mp (hsame.trans (List.map_id _).symm) run hrun
      · cases heq
    · intro hall
      have hreturns : (m.history id).all t.codec.returns = true :=
        List.all_eq_true.mpr fun run hrun => (Codec.keeps_run.mp (hall run hrun)).2
      rw [if_pos hreturns, List.map_congr_left fun run hrun =>
        (Codec.keeps_run.mp (hall run hrun)).1]
      rw [List.map_id']
  | remote => exact h.elim

/-- A history that is given out is the one in memory, or what is left of it in a file. -/
theorem Holds.runs_ok (h : s.Holds m) (hs : m.Sound) {id : String} {a : Answer}
    (ha : (s.apply now (.runs id none)).1 = .ok a) :
    a = .runs (m.history id) ∨ a = .runs ((m.history id).map RunRecord.filed) := by
  cases s with
  | memory m₀ =>
    obtain rfl : m₀ = m := h
    rw [apply_memory_runs] at ha
    cases hfind : m₀.find id with
    | error e => rw [hfind] at ha; cases ha
    | ok f => rw [hfind] at ha; exact Or.inl (Except.ok.inj ha).symm
  | table t =>
    replace ha : (Table.history id none t).1 = .ok a := ha
    cases hflow : t.flowAt id with
    | error e =>
      rw [Table.history_run, hflow] at ha
      cases ha
    | ok f =>
      have hanswer := Table.Holds.toOption_history h hs hflow
        (show IsCount none from fun _ h => by cases h)
      rw [ha] at hanswer
      split at hanswer
      · exact Or.inr (Option.some_inj.mp hanswer)
      · cases hanswer
  | remote => exact h.elim

/-- The flows that are listed are those in memory, each once. -/
theorem Holds.all_ok (h : s.Holds m) (hs : m.Sound) {a : Answer}
    (ha : (s.apply now .all).1 = .ok a) :
    ∃ fs, a = .flows fs ∧ fs.Perm (m.flows.map (·.2)) := by
  cases s with
  | memory m₀ =>
    obtain rfl : m₀ = m := h
    exact ⟨_, (Except.ok.inj ha).symm, List.Perm.refl _⟩
  | table t =>
    have hall : (Table.all t).1.toOption = some a := by
      rw [show (Table.all t).1 = .ok a from ha]; rfl
    rw [Table.Holds.toOption_all h hs] at hall
    split at hall
    · exact ⟨_, (Option.some_inj.mp hall).symm, byId_perm _⟩
    · cases hall
  | remote => exact h.elim

/-- A store refuses a request and holds what it held, or accepts it and holds what the
memory becomes. What the memory answers may be another answer. -/
theorem Holds.becomes (h : s.Holds m) (hs : m.Sound) (now : Moment) (op : Operation) :
    (∃ e, (s.apply now op).1 = .error e ∧ (s.apply now op).2.Holds m) ∨
      ∃ a a' m', (s.apply now op).1 = .ok a ∧ m.apply now op = .ok (a', m') ∧
      (s.apply now op).2.Holds m' := by
  cases s with
  | memory m₀ =>
    obtain rfl : m₀ = m := h
    rw [Store.apply]
    cases ha : m₀.apply now op with
    | error e => exact Or.inl ⟨e, rfl, rfl⟩
    | ok r => exact Or.inr ⟨r.1, r.1, r.2, rfl, rfl, rfl⟩
  | table t =>
    show (∃ e, (t.apply now op).1 = .error e ∧ (t.apply now op).2.Holds m) ∨
      ∃ a a' m', (t.apply now op).1 = .ok a ∧ m.apply now op = .ok (a', m') ∧
      (t.apply now op).2.Holds m'
    cases ha : t.apply now op with
    | mk r t' =>
      cases r with
      | error e =>
        -- a refused request is undone, so the same memory is held as before
        obtain rfl := Table.of_error ha
        exact Or.inl ⟨e, rfl, h⟩
      | ok a =>
        obtain ⟨a', m', hm, ht⟩ := Table.Holds.of_ok h hs ha
        exact Or.inr ⟨a, a', m', rfl, hm, ht⟩
  | remote => exact h.elim

/-- **A store that holds what a sound memory holds follows each request.** -/
theorem Holds.step (h : s.Holds m) (hs : m.Sound) (hop : op.WellFormed) (hnow : now.WellFormed) :
    ∃ m', (s.apply now op).2.Holds m' ∧ m'.Sound ∧
      m.Follows [⟨now, op, (s.apply now op).1⟩] m' := by
  obtain ⟨e, he, hsame⟩ | ⟨a, a', m', ha, hm, hholds⟩ := h.becomes hs now op
  · rw [he]
    exact ⟨m, hsame, hs, .of_error m now op e⟩
  · rw [ha]
    exact ⟨m', hholds, hs.apply hop hnow hm, .of_ok hs hm a⟩

/-- Tables with a lossless codec that hold a finite memory answer a request with finite
numbers, and with a limit that is a count, as the memory does, and hold what it becomes. -/
theorem apply_finite {t : Table} (h : t.Holds m) (hs : m.Sound) (hf : m.IsFinite)
    (hcodec : t.codec.IsLossless) (hl : Table.isLimit t.limit = true)
    (hnow : now.WellFormed) (hop : op.WellFormed) (hfinite : op.isFinite = true)
    (hc : op.IsCounted) :
    ∃ m', ((memory m).apply now op).2 = memory m' ∧ (t.apply now op).2.Holds m' ∧
      m'.Sound ∧ m'.IsFinite ∧
      (t.apply now op).1 = ((memory m).apply now op).1.map Answer.byId := by
  have hanswer : (t.apply now op).1 = (m.apply now op).map fun r => r.1.byId :=
    h.apply_of_finite hs hf hcodec hl hfinite hc
  rw [Store.apply]
  cases hm : m.apply now op with
  | error e =>
    rw [hm] at hanswer
    -- both refuse, and neither changes
    have hsame : (t.apply now op).2 = t := Table.of_error (Prod.ext hanswer rfl)
    exact ⟨m, rfl, by rw [hsame]; exact h, hs, hf, hanswer⟩
  | ok r =>
    obtain ⟨a, m'⟩ := r
    rw [hm] at hanswer
    -- both accept, and the tables hold what the memory holds afterwards
    obtain ⟨a', m'', hm', ht'⟩ := h.of_ok hs (Prod.ext hanswer rfl)
    obtain ⟨rfl, rfl⟩ := Prod.mk.inj (Except.ok.inj (hm.symm.trans hm'))
    exact ⟨m', rfl, ht', hs.apply hop hnow hm, hf.apply hs hfinite hm, hanswer⟩

/-- The journal of a row of requests, and the store after it. -/
def run (s : Store) : List (Moment × Operation) → Journal × Store
  | [] => ([], s)
  | (now, op) :: rest =>
    let (a, s') := s.apply now op
    (⟨now, op, a⟩ :: (s'.run rest).1, (s'.run rest).2)

/-- A store in memory stays one. -/
theorem run_memory (m : Memory) (asked : List (Moment × Operation)) :
    ∃ m', ((Store.memory m).run asked).2 = .memory m' := by
  induction asked generalizing m with
  | nil => exact ⟨m, rfl⟩
  | cons q rest ih =>
    obtain ⟨now, op⟩ := q
    rw [run, apply]
    cases m.apply now op with
    | error e => exact ih m
    | ok r => exact ih r.2

/-- A store in tables stays one, and keeps its codec. -/
theorem run_table (t : Table) (asked : List (Moment × Operation)) :
    ∃ t', ((Store.table t).run asked).2 = .table t' ∧ t'.codec = t.codec := by
  induction asked generalizing t with
  | nil => exact ⟨t, rfl, rfl⟩
  | cons q rest ih =>
    obtain ⟨t', ht', hcodec⟩ := ih (t.apply q.1 q.2).2
    exact ⟨t', ht', hcodec.trans (t.codec_apply q.1 q.2)⟩

/-- A row of well-formed requests. -/
def AreWellFormed (asked : List (Moment × Operation)) : Prop :=
  ∀ q ∈ asked, q.1.WellFormed ∧ q.2.WellFormed

/-- **A store that holds what a sound memory holds follows its journal.** -/
theorem Holds.run (h : s.Holds m) (hs : m.Sound) {asked : List (Moment × Operation)}
    (ha : AreWellFormed asked) :
    ∃ m', (s.run asked).2.Holds m' ∧ m'.Sound ∧ m.Follows (s.run asked).1 m' := by
  induction asked generalizing s m with
  | nil => exact ⟨m, h, hs, .refl m⟩
  | cons q rest ih =>
    obtain ⟨now, op⟩ := q
    obtain ⟨hnow, hop⟩ := ha _ List.mem_cons_self
    obtain ⟨m', hm', hs', hf⟩ := h.step hs hop hnow
    obtain ⟨m'', hm'', hs'', hf'⟩ := ih hm' hs' fun q hq => ha q (List.mem_cons_of_mem _ hq)
    exact ⟨m'', hm'', hs'', hf.trans hf'⟩

end Store

end Cadence
