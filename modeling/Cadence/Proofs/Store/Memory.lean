/-
What a store in memory does to its flows and histories.

* `Memory.Sound` — every flow stands once, under its own id, and everything is well-formed;
* `Memory.apply_cases` — everything that a request can do to a store;
* `Memory.Sound.apply` — requests keep a store sound;
* `Memory.lookup_of_apply`, `Memory.history_of_apply` — a flow and its history after a
  request are what the request makes of them: the definition, the end of the latest run and
  the history change independently of each other.
-/
import Cadence.Proofs.Json.Put
import Cadence.Proofs.Store.Journal
import Cadence.Store.Memory

namespace Cadence

open Calendar

namespace Memory

variable {m m' : Memory} {now : Moment} {op : Operation} {a : Answer}

/-- A flow that is kept under an id is well-formed, and the id is its own and not empty. -/
structure IsKept (id : String) (r : StoredFlow) : Prop where
  own : r.id = id
  ne : id ≠ ""
  wellFormed : r.WellFormed

/-- Every flow stands once, under its own id, everything is well-formed, and there is a limit. -/
structure Sound (m : Memory) : Prop where
  limit : 0 ≤ m.limit
  single : (names m.flows).Nodup
  flow : ∀ i r, m.flows.lookup i = some r → IsKept i r
  run : ∀ i, ∀ run ∈ m.history i, run.flowId = i ∧ run.WellFormed

theorem empty_sound (limit : Nat) : (empty limit).Sound where
  limit := Int.natCast_nonneg limit
  single := List.nodup_nil
  flow := fun _ _ h => by cases h
  run := fun _ _ h => by cases h

theorem ids_eq_names (hs : m.Sound) : (m.flows.map (·.2)).map (·.id) = names m.flows := by
  rw [List.map_map]
  refine List.map_congr_left fun e he => ?_
  exact (hs.flow e.1 e.2 (lookup_eq_some_of_mem hs.single he)).own

theorem lookup_of_mem (hs : m.Sound) {f : StoredFlow} (hf : f ∈ m.flows.map (·.2)) :
    m.flows.lookup f.id = some f := by
  obtain ⟨e, he, rfl⟩ := List.mem_map.mp hf
  have hlookup := lookup_eq_some_of_mem hs.single he
  rwa [(hs.flow e.1 e.2 hlookup).own]

theorem keepFirst_of_nonneg {α : Type} {n : Int} (h : 0 ≤ n) (xs : List α) :
    keepFirst n xs = xs.take n.toNat := if_pos h

/-! ### What a request leaves behind -/

theorem find_ok {id : String} {r : StoredFlow} :
    m.find id = .ok r ↔ m.flows.lookup id = some r := by
  unfold find
  cases m.flows.lookup id with
  | none => simp
  | some f => simp

theorem create_ok {f : Flow} :
    m.create f now = .ok (a, m') ↔
      m.flows.lookup f.id = none ∧ a = .flow (.new f now) ∧ m' = m.putFlow (.new f now) := by
  show (if (m.flows.lookup f.id).isSome then .error (.problem (.flowExists f.id))
    else .ok (.flow (.new f now), m.putFlow (.new f now)) :
      Except StoreFault (Answer × Memory)) = _ ↔ _
  cases m.flows.lookup f.id with
  | none => simp [eq_comm]
  | some r => simp

theorem change_ok {id : String} {f : StoredFlow → StoredFlow} :
    m.change id f = .ok (a, m') ↔
      ∃ r, m.flows.lookup id = some r ∧ a = .flow (f r) ∧
      m' = { m with flows := put id (f r) m.flows } := by
  unfold change find
  cases m.flows.lookup id with
  | none => simp
  | some r => simp [pure, Except.pure, eq_comm]

theorem remove_ok {id : String} :
    m.remove id = .ok (a, m') ↔
      (∃ r, m.flows.lookup id = some r) ∧ a = .done ∧
        m' = { m with
          flows := m.flows.filter fun e => e.1 != id
          histories := m.histories.filter fun e => e.1 != id } := by
  unfold remove find
  cases m.flows.lookup id with
  | none => simp
  | some r => simp [pure, Except.pure, eq_comm]

/-- A request that only asks leaves everything as it is. -/
theorem query_ok {id : String} {g : StoredFlow → Answer} :
    ((m.find id).map fun f => (g f, m)) = .ok (a, m') ↔
      ∃ r, m.flows.lookup id = some r ∧ a = g r ∧ m' = m := by
  unfold find
  cases m.flows.lookup id with
  | none => simp [Except.map]
  | some r => simp [Except.map, eq_comm]

/-- **Everything that a request can do to a store that answers it.** -/
theorem apply_cases (h : m.apply now op = .ok (a, m')) :
    (∃ f, op = .create f ∧ m.flows.lookup f.id = none ∧ m' = m.putFlow (.new f now)) ∨
    (∃ i f r, op = .revise i f ∧ m.flows.lookup i = some r ∧
      m' = { m with flows := put i (r.revise i f now) m.flows }) ∨
    (∃ i enabled r, op = .setEnabled i enabled ∧ m.flows.lookup i = some r ∧
      m' = { m with flows := put i (r.setEnabled enabled now) m.flows }) ∨
    (∃ i, op = .remove i ∧ m' = { m with
      flows := m.flows.filter fun e => e.1 != i
      histories := m.histories.filter fun e => e.1 != i }) ∨
    (∃ run, op = .append run ∧ m' = m.append run) ∨
    (op.OnlyAsks ∧ m' = m) := by
  cases op with
  | create f =>
    obtain ⟨hl, _, hm⟩ := create_ok.mp h
    exact .inl ⟨f, rfl, hl, hm⟩
  | revise i f =>
    obtain ⟨r, hr, _, hm⟩ := change_ok.mp h
    exact .inr (.inl ⟨i, f, r, rfl, hr, hm⟩)
  | setEnabled i enabled =>
    obtain ⟨r, hr, _, hm⟩ := change_ok.mp h
    exact .inr (.inr (.inl ⟨i, enabled, r, rfl, hr, hm⟩))
  | remove i =>
    obtain ⟨_, _, hm⟩ := remove_ok.mp h
    exact .inr (.inr (.inr (.inl ⟨i, rfl, hm⟩)))
  | append run =>
    exact .inr (.inr
      (.inr (.inr (.inl ⟨run, rfl, (Prod.mk.inj (Except.ok.inj h)).2.symm⟩))))
  | find i =>
    obtain ⟨_, _, _, hm⟩ := query_ok.mp h
    exact .inr (.inr (.inr (.inr (.inr ⟨True.intro, hm⟩))))
  | isEnabled i =>
    obtain ⟨_, _, _, hm⟩ := query_ok.mp h
    exact .inr (.inr (.inr (.inr (.inr ⟨True.intro, hm⟩))))
  | all =>
    exact .inr (.inr
      (.inr (.inr (.inr ⟨True.intro, (Prod.mk.inj (Except.ok.inj h)).2.symm⟩))))
  | runs i limit =>
    obtain ⟨_, _, _, hm⟩ := query_ok.mp h
    exact .inr (.inr (.inr (.inr (.inr ⟨True.intro, hm⟩))))

/-! ### Flows -/

theorem lookup_putFlow (r : StoredFlow) (id : String) :
    (m.putFlow r).flows.lookup id = if r.id = id then some r else m.flows.lookup id :=
  lookup_put r.id id r m.flows

/-- A flow that is changed under its own id. -/
theorem lookup_change {i : String} (id : String) (f : StoredFlow → StoredFlow) {r : StoredFlow}
    (hr : m.flows.lookup i = some r) :
    (put i (f r) m.flows).lookup id = if i = id then (m.flows.lookup id).map f
      else m.flows.lookup id := by
  rw [lookup_put]
  by_cases h : i = id
  · rw [if_pos h, if_pos h, ← h, hr]
    rfl
  · rw [if_neg h, if_neg h]

theorem append_eq (run : RunRecord) :
    m.append run = { m with
      flows := match m.flows.lookup run.flowId with
        | some f => put run.flowId (f.ranAt run.finishedAt) m.flows
        | none => m.flows
      histories := put run.flowId (keepFirst m.limit (run :: m.history run.flowId))
          m.histories } := by
  simp only [append]
  cases m.flows.lookup run.flowId <;> rfl

theorem lookup_append (run : RunRecord) (id : String) :
    (m.append run).flows.lookup id =
      if run.flowId = id then (m.flows.lookup id).map (·.ranAt run.finishedAt)
        else m.flows.lookup id := by
  rw [append_eq]
  cases hl : m.flows.lookup run.flowId with
  | none =>
    by_cases h : run.flowId = id
    · rw [if_pos h, ← h, hl]
      rfl
    · rw [if_neg h]
  | some r => exact lookup_change id (·.ranAt run.finishedAt) hl

theorem history_append (run : RunRecord) (id : String) :
    (m.append run).history id =
      if run.flowId = id then keepFirst m.limit (run :: m.history id) else m.history id := by
  rw [append_eq, history, lookup_put]
  by_cases h : run.flowId = id
  · rw [if_pos h, if_pos h, h]
    rfl
  · rw [if_neg h, if_neg h]
    rfl

/-- **A flow after a request is what the request makes of its definition and of the end of
its latest run, each on its own.** -/
theorem lookup_of_apply (h : m.apply now op = .ok (a, m')) {id : String} {r : Option StoredFlow}
    {last : Option Moment} (hr : m.flows.lookup id = r.map (·.withLastRun last)) :
    m'.flows.lookup id = (op.edit now id r).map (·.withLastRun (op.lastRun id last)) := by
  obtain ⟨f, rfl, _, rfl⟩ | ⟨i, f, g, rfl, hg, rfl⟩ | ⟨i, enabled, g, rfl, hg, rfl⟩
    | ⟨i, rfl, rfl⟩ |
    ⟨run, rfl, rfl⟩ | ⟨hop, rfl⟩ := apply_cases h
  · -- a new flow has no latest run, whatever was there under its id
    have hnew : (StoredFlow.new f now).id = f.id := rfl
    simp only [Operation.edit, Operation.lastRun, lookup_putFlow, hnew]
    by_cases hid : f.id = id
    · rw [if_pos hid, if_pos hid, if_pos hid]
      rfl
    · rw [if_neg hid, if_neg hid, if_neg hid, hr]
  · have hput := lookup_change id (·.revise i f now) hg
    simp only [Operation.edit, Operation.lastRun, hput, hr]
    by_cases hid : i = id
    · rw [if_pos hid, if_pos hid, Option.map_map, Option.map_map]
      rfl
    · rw [if_neg hid, if_neg hid]
  · have hput := lookup_change id (·.setEnabled enabled now) hg
    simp only [Operation.edit, Operation.lastRun, hput, hr]
    by_cases hid : i = id
    · rw [if_pos hid, if_pos hid, Option.map_map, Option.map_map]
      rfl
    · rw [if_neg hid, if_neg hid]
  · simp only [Operation.edit, Operation.lastRun, lookup_filter, hr]
    by_cases hid : i = id
    · rw [if_pos hid, if_pos hid]
      rfl
    · rw [if_neg hid, if_neg hid]
  · simp only [Operation.edit, Operation.lastRun, lookup_append, hr]
    by_cases hid : run.flowId = id
    · rw [if_pos hid, if_pos hid, Option.map_map]
      rfl
    · rw [if_neg hid, if_neg hid]
  · rw [hop.edit, hop.lastRun, hr]

/-- The definition of a stored flow and the end of its latest run, apart. -/
theorem lookup_eq_withLastRun (m : Memory) (id : String) :
    m.flows.lookup id =
      (m.flows.lookup id).map (·.withLastRun ((m.flows.lookup id).bind (·.lastRunAt))) := by
  cases m.flows.lookup id <;> rfl

/-- The history of a flow after a request. -/
theorem history_apply (h : m.apply now op = .ok (a, m')) (id : String) :
    m'.history id = match op with
      | .remove i => if i = id then [] else m.history id
      | .append run =>
        if run.flowId = id then keepFirst m.limit (run :: m.history id) else m.history id
      | _ => m.history id := by
  obtain ⟨f, rfl, _, rfl⟩ | ⟨i, f, g, rfl, _, rfl⟩ | ⟨i, enabled, g, rfl, _, rfl⟩ | ⟨i, rfl, rfl⟩ |
    ⟨run, rfl, rfl⟩ | ⟨hop, rfl⟩ := apply_cases h
  · rfl
  · rfl
  · rfl
  · simp only [history, lookup_filter]
    by_cases hid : i = id
    · rw [if_pos hid, if_pos hid]
      rfl
    · rw [if_neg hid, if_neg hid]
  · exact history_append run id
  · cases op with
    | find i => rfl
    | isEnabled i => rfl
    | all => rfl
    | runs i limit => rfl
    | _ => exact hop.elim

/-- A beginning of a history needs only the beginning of the one before. -/
theorem take_cons_take {α : Type} (n : Nat) (x : α) (xs : List α) :
    (x :: xs.take n).take n = (x :: xs).take n := by
  cases n with
  | zero => rfl
  | succ n => simp [List.take_take]

/-- **A history after a request is the beginning of what the request makes of all runs so far.** -/
theorem history_of_apply (hs : m.Sound) (h : m.apply now op = .ok (a, m')) {id : String}
    {runs : List RunRecord} (hr : m.history id = runs.take m.limit.toNat) :
    m'.history id = (op.appended id runs).take m.limit.toNat := by
  rw [history_apply h id]
  cases op with
  | remove i =>
    simp only [Operation.appended]
    by_cases hid : i = id
    · rw [if_pos hid, if_pos hid, List.take_nil]
    · rw [if_neg hid, if_neg hid, hr]
  | append run =>
    simp only [Operation.appended, keepFirst_of_nonneg hs.limit]
    by_cases hid : run.flowId = id
    -- what was cut off before would be cut off now as well
    · rw [if_pos hid, if_pos hid, hr, take_cons_take]
    · rw [if_neg hid, if_neg hid, hr]
  | _ => exact hr

theorem limit_of_apply (h : m.apply now op = .ok (a, m')) : m'.limit = m.limit := by
  obtain ⟨f, rfl, _, rfl⟩ | ⟨i, f, g, rfl, _, rfl⟩ | ⟨i, enabled, g, rfl, _, rfl⟩ | ⟨i, rfl, rfl⟩ |
    ⟨run, rfl, rfl⟩ | ⟨_, rfl⟩ := apply_cases h
  · rfl
  · rfl
  · rfl
  · rfl
  · rw [append_eq]
  · rfl

/-! ### Soundness -/

theorem single_of_apply (hs : (names m.flows).Nodup) (h : m.apply now op = .ok (a, m')) :
    (names m'.flows).Nodup := by
  obtain ⟨f, rfl, _, rfl⟩ | ⟨i, f, g, rfl, _, rfl⟩ | ⟨i, enabled, g, rfl, _, rfl⟩ | ⟨i, rfl, rfl⟩ |
    ⟨run, rfl, rfl⟩ | ⟨_, rfl⟩ := apply_cases h
  · exact nodup_put hs
  · exact nodup_put hs
  · exact nodup_put hs
  · exact nodup_filter _ hs
  · rw [append_eq]
    cases hl : m.flows.lookup run.flowId with
    | none => simpa [hl] using hs
    | some f => simpa [hl] using nodup_put hs
  · exact hs

theorem revise_id {r : StoredFlow} {id : String} (h : IsKept id r) (f : Flow) (now : Moment) :
    (r.revise id f now).id = id := StoredFlow.revise_id r h.ne f now

theorem edit_isKept {id : String} {r : Option StoredFlow} (hop : op.WellFormed)
    (hnow : now.WellFormed) (hr : ∀ f, r = some f → IsKept id f) :
    ∀ f, op.edit now id r = some f → IsKept id f := by
  refine Operation.edit_preserves ?_ ?_ ?_ hr
  · rintro f rfl hid
    exact ⟨hid, hid ▸ Flow.WellFormed.id_ne hop, StoredFlow.new_wellFormed hop hnow⟩
  · rintro f g rfl hg
    exact ⟨revise_id hg f now, hg.ne, hg.wellFormed.revise hop hnow id⟩
  · intro enabled g hg
    exact ⟨hg.own, hg.ne, hg.wellFormed.setEnabled enabled hnow⟩

theorem lookup_isKept (hs : m.Sound) (hop : op.WellFormed) (hnow : now.WellFormed)
    (h : m.apply now op = .ok (a, m')) {id : String} {r : StoredFlow}
    (hr : m'.flows.lookup id = some r) :
    IsKept id r := by
  rw [lookup_of_apply h (lookup_eq_withLastRun m id)] at hr
  obtain ⟨f, hf, rfl⟩ := Option.map_eq_some_iff.mp hr
  -- the definition and the end of the latest run are kept apart, so each is looked at on its own
  obtain ⟨hown, hne, hwf⟩ := edit_isKept hop hnow (hs.flow id) f hf
  refine ⟨hown, hne, hwf.definition, hwf.createdAt, hwf.updatedAt,
    Operation.lastRun_preserves ?_ ?_⟩
  · rintro run rfl
    exact RunRecord.WellFormed.finishedAt hop
  intro t ht
  obtain ⟨g, hg, hlast⟩ := Option.bind_eq_some_iff.mp ht
  exact (hs.flow id g hg).wellFormed.lastRunAt t hlast

theorem mem_appended_of_mem_history (hs : m.Sound) (h : m.apply now op = .ok (a, m')) {id : String}
    {run : RunRecord} (hr : run ∈ m'.history id) : run ∈ op.appended id (m.history id) := by
  rw [history_apply h id] at hr
  cases op with
  | append run' =>
    simp only [Operation.appended]
    by_cases hid : run'.flowId = id
    · simp only [if_pos hid, keepFirst_of_nonneg hs.limit] at hr ⊢
      exact List.mem_of_mem_take hr
    · simp only [if_neg hid] at hr ⊢
      exact hr
  | _ => exact hr

/-- **Requests keep a store sound.** -/
theorem Sound.apply (hs : m.Sound) (hop : op.WellFormed) (hnow : now.WellFormed)
    (h : m.apply now op = .ok (a, m')) : m'.Sound where
  limit := limit_of_apply h ▸ hs.limit
  single := single_of_apply hs.single h
  flow := fun _ _ hr => lookup_isKept hs hop hnow h hr
  run := by
    intro id run hr
    refine Operation.appended_preserves ?_ (hs.run id) run (mem_appended_of_mem_history hs h hr)
    rintro run rfl hid
    exact ⟨hid, hop⟩

end Memory

end Cadence
