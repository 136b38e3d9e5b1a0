/-
The law of histories.

The history of a stored flow is what was put into it since the flow was last removed, as far
as the limit allows, and the flow remembers the end of the latest run since it was created.

* `Store.HistoryLaw` — the law for one flow, said of the answers of a store and of its journal;
* `Store.history_law` — a store in memory obeys the law for every flow, whatever it was
  asked; a store in tables obeys it for just those flows whose definition and whose kept
  runs come back as they were.
-/
import Cadence.Proofs.Store.Following

namespace Cadence

open Calendar

/-! ### Journals -/

/-- The latest run since a flow was created is at the head of all its runs. -/
def Journal.HeadIsLast (r : Option StoredFlow) (last : Option Moment)
    (runs : List RunRecord) : Prop :=
  r.isSome → ∀ t, last = some t → runs.head?.map (·.finishedAt) = some t

theorem Operation.headIsLast {now : Moment} {id : String} {r : Option StoredFlow}
    {last : Option Moment} {runs : List RunRecord} (op : Operation)
    (h : Journal.HeadIsLast r last runs) :
    Journal.HeadIsLast (op.edit now id r) (op.lastRun id last) (op.appended id runs) := by
  intro hr t ht
  cases op with
  | create f =>
    simp only [Operation.edit, Operation.lastRun, Operation.appended] at hr ht ⊢
    by_cases hid : f.id = id
    · rw [if_pos hid] at ht
      cases ht
    · rw [if_neg hid] at hr ht
      exact h hr t ht
  | revise i f =>
    simp only [Operation.edit] at hr
    by_cases hid : i = id
    · rw [if_pos hid, Option.isSome_map] at hr
      exact h hr t ht
    · rw [if_neg hid] at hr
      exact h hr t ht
  | setEnabled i enabled =>
    simp only [Operation.edit] at hr
    by_cases hid : i = id
    · rw [if_pos hid, Option.isSome_map] at hr
      exact h hr t ht
    · rw [if_neg hid] at hr
      exact h hr t ht
  | remove i =>
    simp only [Operation.edit, Operation.lastRun, Operation.appended] at hr ht ⊢
    by_cases hid : i = id
    · rw [if_pos hid] at hr
      cases hr
    · rw [if_neg hid] at hr ⊢
      exact h hr t ht
  | append run =>
    simp only [Operation.edit, Operation.lastRun, Operation.appended] at hr ht ⊢
    by_cases hid : run.flowId = id
    · rw [if_pos hid] at ht ⊢
      exact ht
    · rw [if_neg hid] at ht ⊢
      exact h hr t ht
  | find i => exact h hr t ht
  | isEnabled i => exact h hr t ht
  | all => exact h hr t ht
  | runs i limit => exact h hr t ht

theorem Journal.headIsLast (j : Journal) {id : String} {r : Option StoredFlow}
    {last : Option Moment} {runs : List RunRecord} (h : HeadIsLast r last runs) :
    HeadIsLast (j.edited id r) (j.lastRun id last) (j.appended id runs) := by
  induction j generalizing r last runs with
  | nil => exact h
  | cons e j ih =>
    refine ih ?_
    unfold Entry.edit Entry.lastRun Entry.appended
    cases e.isAnswered with
    | true => exact e.operation.headIsLast h
    | false => exact h

/-! ### The law -/

/-- The law for a flow: the history that a store gives out is what was put into it since the
flow was last removed, the latest run first, as far as the limit allows; the end of its
latest run is that of the latest run since it was created; and if there was such a run, it
is at the head of the history. -/
def Store.HistoryLaw (s : Store) (limit : Nat) (j : Journal) (id : String) : Prop :=
  ∀ now, (s.apply now (.runs id none)).1 = .ok (.runs ((j.appended id []).take limit)) ∧
    ∃ f, (s.apply now (.find id)).1 = .ok (.flow f) ∧ f.lastRunAt = j.lastRun id none ∧
      ∀ t, f.lastRunAt = some t → ((j.appended id []).take limit).head?.map (·.finishedAt) = some t

namespace Store

variable {limit : Nat} {j : Journal} {m : Memory} {id : String} {f : StoredFlow}

/-- The parts of the law that do not depend on the kind of store. -/
theorem head_of_journal (hl : 1 ≤ limit) (hf : j.edited id none = some f) :
    ∀ t, j.lastRun id none = some t →
      ((j.appended id []).take limit).head?.map (·.finishedAt) = some t := by
  intro t ht
  -- at the beginning no flow is stored, and there is nothing to show
  have hstart : Journal.HeadIsLast (none : Option StoredFlow) none [] := fun h => by cases h
  have hhead := j.headIsLast hstart (by rw [hf]; rfl) t ht
  rw [List.head?_take, if_neg (by omega)]
  exact hhead

/-- A store obeys the law for just those stored flows that it can read, with all of their
kept runs. -/
theorem historyLaw_iff {s : Store} (hl : 1 ≤ limit) (h : s.Holds m) (hs : m.Sound)
    (hm : (Memory.empty limit).Follows j m) (hf : j.edited id none = some f) :
    s.HistoryLaw limit j id ↔ s.Reads f.definition.toJson ∧
      ∀ run ∈ (j.appended id []).take limit, s.Reads run.toJson := by
  have hlookup := hm.flow id none none rfl
  rw [hf] at hlookup
  have hhistory : m.history id = (j.appended id []).take limit :=
    hm.history id [] List.take_nil.symm
  rw [← hhistory]
  constructor
  · intro hlaw
    -- the law says that the flow and its history are given out, and so both were read
    obtain ⟨hruns, g, hg, _⟩ := hlaw default
    rw [← hhistory] at hruns
    obtain ⟨hg', hread⟩ := (h.find_iff hs).mp hg
    obtain rfl := Option.some_inj.mp (hlookup.symm.trans hg')
    exact ⟨hread, (h.runs_iff hs hlookup hread).mp hruns⟩
  · rintro ⟨hread, hall⟩ now
    rw [← hhistory]
    refine ⟨(h.runs_iff hs hlookup hread).mpr hall, _,
      (h.find_iff hs).mpr ⟨hlookup, hread⟩, rfl, ?_⟩
    rw [hhistory]
    exact head_of_journal hl hf

/-- **The law of histories.**  A store in memory obeys the law for every stored flow,
whatever it was asked. A store in tables obeys it for just those stored flows whose
definition and whose kept runs hold only finite numbers and can be read from what was
written of them. -/
theorem history_law (codec : Codec) (hl : 1 ≤ limit) {asked : List (Moment × Operation)}
    (ha : AreWellFormed asked) :
    (∀ j s, (Store.memory (.empty limit)).run asked = (j, s) →
      ∀ id f, j.edited id none = some f → s.HistoryLaw limit j id) ∧
    ∀ j s, (Store.table (.empty codec limit)).run asked = (j, s) →
      ∀ id f, j.edited id none = some f →
        (s.HistoryLaw limit j id ↔ codec.keeps f.definition.toJson = true ∧
          ∀ run ∈ (j.appended id []).take limit, codec.keeps run.toJson = true) := by
  constructor
  · intro j s hrun id f hf
    obtain ⟨m, hm, hs, hfollows⟩ :=
      Holds.run (s := .memory (.empty limit)) rfl (Memory.empty_sound limit) ha
    obtain ⟨m', hstore⟩ := run_memory (.empty limit) asked
    rw [hrun] at hm hfollows hstore
    obtain rfl : s = .memory m' := hstore
    obtain rfl : m' = m := hm
    have hholds : (Store.memory m').Holds m' := rfl
    exact (historyLaw_iff hl hholds hs hfollows hf).mpr ⟨True.intro, fun _ _ => True.intro⟩
  · intro j s hrun id f hf
    obtain ⟨m, hm, hs, hfollows⟩ :=
      Holds.run (s := .table (.empty codec limit)) (Table.holds_empty codec limit)
        (Memory.empty_sound limit) ha
    obtain ⟨t, hstore, hcodec⟩ := run_table (.empty codec limit) asked
    rw [hrun] at hm hfollows hstore
    obtain rfl : s = .table t := hstore
    have hiff := historyLaw_iff hl hm hs hfollows hf
    simp only [Reads, hcodec] at hiff
    exact hiff

/-- A flow with three runs, the latest two of which are kept, obeys the law in either kind
of store. -/
theorem history_law_threeRuns :
    let now : Moment := Instant.toMoment ⟨63000000000000000⟩
    let run (id : String) : RunRecord :=
      ⟨id, "a", "a", .success, .manual, now, now, [], [], .bare "a"⟩
    let asked : List (Moment × Operation) := [(now, .append (run "1")), (now, .create (.bare "a")),
      (now, .append (run "2")), (now, .append (run "3"))]
    AreWellFormed asked ∧
      ((Store.memory (.empty (2 : Nat))).run asked).2.HistoryLaw 2
        ((Store.memory (.empty (2 : Nat))).run asked).1 "a" := by
  intro now run asked
  have hnow : now.WellFormed := Instant.toMoment_wellFormed (by decide)
  have hflow : (Flow.bare "a").WellFormed := Flow.bare_wellFormed (by decide) (by decide)
  have hrun : ∀ id, (run id).WellFormed := fun _ => ⟨hnow, hnow, fun _ h => (by cases h), hflow⟩
  have hasked : AreWellFormed asked := by
    intro q hq
    simp only [asked, List.mem_cons, List.not_mem_nil, or_false] at hq
    rcases hq with rfl | rfl | rfl | rfl
    · exact ⟨hnow, hrun _⟩
    · exact ⟨hnow, hflow⟩
    · exact ⟨hnow, hrun _⟩
    · exact ⟨hnow, hrun _⟩
  exact ⟨hasked, (history_law default (by decide) hasked).1 _ _ rfl "a" _ rfl⟩

end Store

end Cadence
