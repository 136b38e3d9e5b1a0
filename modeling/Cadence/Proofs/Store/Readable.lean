/-
Which flows in tables can be read again.

A table holds a row for each flow that it has given out when the flow was created or edited.
The row can be read just if the flow comes back as it was, which it does not if a number is
lost or the codec cannot read the row, and then it is read as the flow that was given out.
Every request that needs a row that cannot be read is refused.

* `Journal.givenOut` — the flow that a store gave out last, with the end of the latest run since;
* `Table.Holds.run_givenOut` — the flows of a table are those that it gave out;
* `Table.Needs` — the flows that a request needs;
* `Table.readable_iff` — which flows can be read, and which requests are refused for want of one.
-/
import Cadence.Proofs.Store.Following

namespace Cadence

open Calendar

/-! ### Flows given out -/

/-- The flow that was given out last when it was created or edited, with the end of the
latest run since. -/
def Entry.givenOut (id : String) (before : Option StoredFlow) (e : Entry) : Option StoredFlow :=
  match e.operation, e.answer with
  | .create _, .ok (.flow f) => if f.id = id then some f else before
  | .revise _ _, .ok (.flow f) => if f.id = id then some f else before
  | .setEnabled _ _, .ok (.flow f) => if f.id = id then some f else before
  | .remove i, .ok _ => if i = id then none else before
  | .append run, .ok _ => if run.flowId = id then before.map (·.ranAt run.finishedAt) else before
  | _, _ => before

/-- The flow under an id as it was given out last in a journal, with the end of the latest
run since. -/
def Journal.givenOut (j : Journal) (id : String) : Option StoredFlow :=
  j.foldl (Entry.givenOut id) none

theorem Entry.givenOut_error (id : String) (before : Option StoredFlow) (now : Moment)
    (op : Operation) (e : StoreFault) :
    Entry.givenOut id before ⟨now, op, .error e⟩ = before := by
  cases op <;> rfl

namespace Table

variable {codec : Codec} {limit : Nat} {t t' : Table} {m : Memory} {now : Moment}
  {op : Operation} {id : String} {a : Answer}

theorem Holds.change_givenOut (h : t.Holds m) (hs : m.Sound) {i : String}
    {g : StoredFlow → StoredFlow} (hid : ∀ r, m.flows.lookup i = some r → (g r).id = i)
    (ha : change i g t = (.ok a, t')) :
    ∃ m', m.change i g = .ok (a, m') ∧ t'.Holds m' ∧
      ∃ f, a = .flow f ∧ ∀ id, m'.flows.lookup id = if f.id = id then some f
        else m.flows.lookup id := by
  obtain ⟨m', hm, ht⟩ := h.of_change hs hid ha
  refine ⟨m', hm, ht, ?_⟩
  obtain ⟨r, hr, rfl, rfl⟩ := Memory.change_ok.mp hm
  refine ⟨g r, rfl, fun id => ?_⟩
  rw [hid r hr]
  exact lookup_put i id (g r) m.flows

/-- **A table goes on holding the flows that it gives out.** -/
theorem Holds.step_givenOut (h : t.Holds m) (hs : m.Sound) (hop : op.WellFormed)
    (hnow : now.WellFormed) :
    ∃ m', (t.apply now op).2.Holds m' ∧ m'.Sound ∧
      ∀ id, m'.flows.lookup id = Entry.givenOut id (m.flows.lookup id)
        ⟨now, op, (t.apply now op).1⟩ := by
  cases ha : t.apply now op with
  | mk answer t' =>
    cases answer with
    | error e =>
      -- a refused request is undone
      obtain rfl := of_error ha
      exact ⟨m, h, hs, fun id => (Entry.givenOut_error id _ now op e).symm⟩
    | ok a =>
      -- where the memory answers the same request, it stays sound
      have hsound {a' : Answer} {m' : Memory} (hm : m.apply now op = .ok (a', m')) : m'.Sound :=
        hs.apply hop hnow hm
      cases op with
      | create f =>
        obtain ⟨m', hm, ht⟩ := h.of_create ha
        refine ⟨m', ht, hsound hm, fun id => ?_⟩
        obtain ⟨_, rfl, rfl⟩ := Memory.create_ok.mp hm
        exact Memory.lookup_putFlow _ id
      | revise i f =>
        obtain ⟨m', hm, ht, f, rfl, hlookup⟩ :=
          h.change_givenOut hs (fun r hr => Memory.revise_id (hs.flow i r hr) f now) ha
        exact ⟨m', ht, hsound hm, hlookup⟩
      | setEnabled i enabled =>
        obtain ⟨m', hm, ht, f, rfl, hlookup⟩ :=
          h.change_givenOut hs (g := (·.setEnabled enabled now))
          (fun r hr => (hs.flow i r hr).own) ha
        exact ⟨m', ht, hsound hm, hlookup⟩
      | remove i =>
        obtain ⟨m', hm, ht⟩ := h.of_remove hs ha
        refine ⟨m', ht, hsound hm, fun id => ?_⟩
        obtain ⟨_, rfl, rfl⟩ := Memory.remove_ok.mp hm
        exact lookup_filter i id m.flows
      | append run =>
        obtain ⟨rfl, ht⟩ := h.of_append hs ha
        exact ⟨_, ht, hsound rfl, Memory.lookup_append run⟩
      | find i =>
        obtain ⟨_, rfl⟩ := h.of_query hs ((query_run i .flow t).symm.trans ha)
        exact ⟨m, h, hs, fun _ => rfl⟩
      | isEnabled i =>
        obtain ⟨_, rfl⟩ := h.of_query hs ((query_run i _ t).symm.trans ha)
        exact ⟨m, h, hs, fun _ => rfl⟩
      | all =>
        obtain ⟨_, rfl⟩ := Prod.mk.inj ((all_run t).symm.trans ha)
        exact ⟨m, h, hs, fun _ => rfl⟩
      | runs i n =>
        obtain ⟨_, rfl⟩ := Prod.mk.inj ((history_run i n t).symm.trans ha)
        exact ⟨m, h, hs, fun _ => rfl⟩

/-- **The flows of a table are those that it gave out.** -/
theorem Holds.run_givenOut (h : t.Holds m) (hs : m.Sound) {asked : List (Moment × Operation)}
    (ha : Store.AreWellFormed asked) :
    ∃ m' t', ((Store.table t).run asked).2 = .table t' ∧ t'.Holds m' ∧ m'.Sound ∧
      ∀ id, m'.flows.lookup id = ((Store.table t).run asked).1.foldl (Entry.givenOut id)
        (m.flows.lookup id) := by
  induction asked generalizing t m with
  | nil => exact ⟨m, t, rfl, h, hs, fun _ => rfl⟩
  | cons q rest ih =>
    obtain ⟨now, op⟩ := q
    obtain ⟨hnow, hop⟩ := ha _ List.mem_cons_self
    obtain ⟨m', hm', hs', hstep⟩ := h.step_givenOut hs hop hnow
    obtain ⟨m'', t'', ht'', hm'', hs'', hrest⟩ := ih hm' hs' fun q hq =>
      ha q (List.mem_cons_of_mem _ hq)
    refine ⟨m'', t'', ht'', hm'', hs'', fun id => ?_⟩
    rw [hrest id, hstep id]
    rfl

/-! ### Rows that cannot be read -/

/-- A fault of a row that cannot be read. -/
def IsUnreadable (e : StoreFault) : Prop := ∃ issues, e = .unreadable issues

/-- A request is refused as a row cannot be read. -/
def Stuck {α : Type} (x : Except StoreFault α) : Prop := ∃ issues, x = .error (.unreadable issues)

theorem readFlow_faults (codec : Codec) (v : Json) : Faults IsUnreadable (readFlow codec v) := by
  refine Faults.bind (fun e he => ?_) fun _ => Faults.mapError fun issues _ => ⟨issues, rfl⟩
  unfold parse at he
  split at he
  · cases he
  · exact ⟨_, (Except.error.inj he).symm⟩

theorem not_stuck_ok {α : Type} (a : α) : ¬Stuck (.ok a : Except StoreFault α) := nofun

theorem stuck_error {α : Type} {e : StoreFault} :
    Stuck (.error e : Except StoreFault α) ↔ IsUnreadable e :=
  exists_congr fun _ => ⟨Except.error.inj, congrArg Except.error⟩

theorem not_stuck_problem {α : Type} (p : Problem) :
    ¬Stuck (.error (.problem p) : Except StoreFault α) := by
  rintro ⟨_, h⟩
  cases h

theorem stuck_map {α β : Type} {x : Except StoreFault α} (f : α → β) :
    Stuck (x.map f) ↔ Stuck x := by
  cases x with
  | ok a => exact iff_of_false (not_stuck_ok _) (not_stuck_ok a)
  | error e => exact stuck_error.trans stuck_error.symm

/-- A check all of whose faults are of rows is refused for want of a row if it fails. -/
theorem stuck_iff {α : Type} {x : Except StoreFault α} (h : Faults IsUnreadable x) :
    Stuck x ↔ x.toOption = none := by
  cases x with
  | ok a => exact iff_of_false (not_stuck_ok a) nofun
  | error e => exact iff_of_true (stuck_error.mpr (h e rfl)) rfl

/-- **Just the rows of flows that do not come back as they were cannot be read.** -/
theorem Holds.stuck_flowAt (h : t.Holds m) (hs : m.Sound) (id : String) :
    Stuck (t.flowAt id) ↔ ∃ f, m.flows.lookup id = some f ∧
      t.codec.keeps f.definition.toJson = false := by
  obtain ⟨hl, hr⟩ | ⟨r, hl, hkeeps, hr⟩ | ⟨r, e, hl, hbad, hr⟩ := h.find_cases hs id
  · rw [hl, hr]
    exact iff_of_false (not_stuck_problem _) nofun
  · rw [hl, hr]
    refine iff_of_false (not_stuck_ok r) fun ⟨f, hf, hbad⟩ => ?_
    obtain rfl := Option.some_inj.mp hf
    cases hbad.symm.trans hkeeps
  · refine iff_of_true ?_ ⟨r, hl, hbad⟩
    rw [flowAt, h.document?_eq, hl] at hr ⊢
    exact (congrArg Stuck hr).mpr (stuck_error.mpr (readFlow_faults _ _ e hr))

theorem Holds.stuck_all (h : t.Holds m) (hs : m.Sound) :
    Stuck (Table.all t).1 ↔ ∃ id f, m.flows.lookup id = some f ∧
      t.codec.keeps f.definition.toJson = false := by
  have hfaults : Faults IsUnreadable (Table.all t).1 := by
    rw [all_run]
    exact (Faults.mapM (readFlow_faults t.codec) t.documents).map _
  rw [stuck_iff hfaults, h.toOption_all hs]
  constructor
  · intro hnone
    split at hnone
    · cases hnone
    · rename_i hall
      obtain ⟨f, hf, hbad⟩ := List.all_eq_false.mp (Bool.eq_false_iff.mpr hall)
      exact ⟨f.id, f, Memory.lookup_of_mem hs hf, Bool.eq_false_iff.mpr hbad⟩
  · rintro ⟨id, f, hf, hbad⟩
    refine if_neg fun hall => ?_
    have hmem : f ∈ m.flows.map (·.2) := List.mem_map.mpr ⟨(id, f), mem_of_lookup_eq_some hf, rfl⟩
    exact Bool.false_ne_true (hbad.symm.trans (List.all_eq_true.mp hall f hmem))

/-- A change is refused as a row cannot be read just if the row of its flow cannot. -/
theorem stuck_change (id : String) (change' : StoredFlow → StoredFlow) (t : Table) :
    Stuck (change id change' t).1 ↔ Stuck (t.flowAt id) := by
  rw [change_run]
  cases t.flowAt id with
  | ok r => exact iff_of_false (not_stuck_ok _) (not_stuck_ok r)
  | error e => exact stuck_error.trans stuck_error.symm

theorem stuck_remove (id : String) (now : Moment) (t : Table) :
    Stuck (t.apply now (.remove id)).1 ↔ Stuck (t.flowAt id) := by
  rw [show t.apply now (.remove id) = _ from remove_run id t]
  cases t.flowAt id with
  | ok r => exact iff_of_false (not_stuck_ok _) (not_stuck_ok r)
  | error e => exact stuck_error.trans stuck_error.symm

/-- A run that can be stored is added before the row of its flow is read. -/
theorem stuck_append (run : RunRecord) (now : Moment) (t : Table) :
    Stuck (t.apply now (.append run)).1 ↔
      Stuck (t.flowAt run.flowId) ∧ t.codec.writes run = true ∧ isLimit t.limit = true := by
  have hrun : (t.apply now (.append run)).1 = _ := congrArg Prod.fst (append_run run t)
  cases hwrite : t.codec.unwritable? run.toJson with
  | some reason =>
    rw [hwrite] at hrun
    refine iff_of_false (fun ⟨issues, hstuck⟩ => ?_) fun ⟨_, hwrites, _⟩ => ?_
    · cases hrun.symm.trans hstuck
    · cases (congrArg Option.isNone hwrite).symm.trans hwrites
  | none =>
    have hwrites : t.codec.writes run = true := congrArg Option.isNone hwrite
    rw [hwrite] at hrun
    by_cases hl : isLimit t.limit = true
    · refine Iff.trans ?_ (and_iff_left ⟨hwrites, hl⟩).symm
      rw [hrun]
      simp only [if_pos hl, flowAt]
      cases t.document? run.flowId with
      | none => exact iff_of_false (not_stuck_ok _) (not_stuck_problem _)
      | some v =>
        simp only
        cases readFlow t.codec v with
        | ok f => exact iff_of_false (not_stuck_ok _) (not_stuck_ok f)
        | error e => exact stuck_error.trans stuck_error.symm
    · refine iff_of_false (fun ⟨issues, hstuck⟩ => ?_) fun ⟨_, _, hlimit⟩ => hl hlimit
      simp only [if_neg hl] at hrun
      cases hrun.symm.trans hstuck

/-- Whether a request can only be answered if the flow under an id, if it is stored, can be
read. A run that cannot be stored is refused before. -/
def Needs (t : Table) (id : String) : Operation → Prop
  | .create _ => False
  | .all => True
  | .append run => run.flowId = id ∧ t.codec.writes run = true ∧ isLimit t.limit = true
  | .revise i _ => i = id
  | .remove i => i = id
  | .find i => i = id
  | .setEnabled i _ => i = id
  | .isEnabled i => i = id
  | .runs i _ => i = id

/-- **Requests other than for a history are refused as a row cannot be read just if they
need a flow that does not come back as it was.** -/
theorem Holds.stuck_iff_needs (h : t.Holds m) (hs : m.Sound) (hop : ∀ i n, op ≠ .runs i n) :
    Stuck (t.apply now op).1 ↔
      ∃ id f, t.Needs id op ∧ m.flows.lookup id = some f ∧
      t.codec.keeps f.definition.toJson = false := by
  -- for requests that read one flow, if at all
  have hone {i : String} {x : Except StoreFault Answer} {reads : Prop}
      (hx : Stuck x ↔ Stuck (t.flowAt i) ∧ reads)
      (hneeds : ∀ id, t.Needs id op ↔ i = id ∧ reads) : Stuck x ↔
        ∃ id f, t.Needs id op ∧ m.flows.lookup id = some f ∧
        t.codec.keeps f.definition.toJson = false := by
    rw [hx, h.stuck_flowAt hs]
    constructor
    · rintro ⟨⟨f, hf⟩, hreads⟩
      exact ⟨i, f, (hneeds i).mpr ⟨rfl, hreads⟩, hf⟩
    · rintro ⟨id, f, hid, hf⟩
      obtain ⟨rfl, hreads⟩ := (hneeds id).mp hid
      exact ⟨⟨f, hf⟩, hreads⟩
  have halways {i : String} {x : Except StoreFault Answer} (hx : Stuck x ↔ Stuck (t.flowAt i))
      (hneeds : ∀ id, t.Needs id op ↔ i = id) : Stuck x ↔
        ∃ id f, t.Needs id op ∧ m.flows.lookup id = some f ∧
        t.codec.keeps f.definition.toJson = false :=
    hone (hx.trans (and_iff_left trivial).symm) fun id =>
      (hneeds id).trans (and_iff_left trivial).symm
  cases op with
  | create f =>
    refine ⟨fun ⟨issues, hx⟩ => ?_, fun ⟨_, _, hneeds, _⟩ => hneeds.elim⟩
    have hx := (congrArg Prod.fst (create_run f now t)).symm.trans hx
    split at hx <;> cases hx
  | revise i f => exact halways (stuck_change i _ t) fun _ => Iff.rfl
  | setEnabled i enabled => exact halways (stuck_change i _ t) fun _ => Iff.rfl
  | remove i => exact halways (stuck_remove i now t) fun _ => Iff.rfl
  | append run => exact hone (stuck_append run now t) fun _ => Iff.rfl
  | find i =>
    refine halways ?_ fun _ => Iff.rfl
    rw [show (t.apply now (.find i)).1 = _ from congrArg Prod.fst (query_run i _ t)]
    exact stuck_map _
  | isEnabled i =>
    refine halways ?_ fun _ => Iff.rfl
    rw [show (t.apply now (.isEnabled i)).1 = _ from congrArg Prod.fst (query_run i _ t)]
    exact stuck_map _
  | all =>
    refine (h.stuck_all hs).trans ?_
    exact ⟨fun ⟨id, f, hf⟩ => ⟨id, f, True.intro, hf⟩, fun ⟨id, f, _, hf⟩ => ⟨id, f, hf⟩⟩
  | runs i n => exact absurd rfl (hop i n)

/-- **Which flows in tables can be read.**  After any requests, tables have a row for just
those flows that they gave out when these were created or edited, and that were not removed.
A row is read as the flow that was given out, with the end of the latest run since, just if
the flow holds only finite numbers and what was written of it can be read; and a request
other than for a history is refused as a row cannot be read just if it needs a flow of which
this does not hold. -/
theorem readable_iff {asked : List (Moment × Operation)} (ha : Store.AreWellFormed asked)
    {j : Journal} {t : Table}
    (hrun : (Store.table (.empty codec limit)).run asked = (j, .table t)) :
    (∀ id, (t.document? id).isSome = (j.givenOut id).isSome) ∧
    (∀ id f, j.givenOut id = some f →
      (t.flowAt id = .ok f ↔ codec.keeps f.definition.toJson = true)) ∧
    ∀ now op, (∀ i n, op ≠ .runs i n) →
      ((∃ issues, (t.apply now op).1 = .error (.unreadable issues)) ↔
        ∃ id f, t.Needs id op ∧ j.givenOut id = some f ∧
        codec.keeps f.definition.toJson = false) := by
  obtain ⟨m, t', hstore, hholds, hsound, hlookup⟩ :=
    (holds_empty codec limit).run_givenOut (Memory.empty_sound limit) ha
  obtain ⟨t'', hstore', hcodec⟩ := Store.run_table (.empty codec limit) asked
  rw [hrun] at hstore hstore' hlookup
  obtain rfl : t = t' := Store.table.inj hstore
  obtain rfl : t = t'' := Store.table.inj hstore'
  obtain rfl : t.codec = codec := hcodec
  have hgiven : ∀ id, m.flows.lookup id = j.givenOut id := hlookup
  refine ⟨fun id => ?_, fun id f hf => ?_, fun now op hop => ?_⟩
  · rw [hholds.document?_eq, Option.isSome_map, hgiven]
  · rw [← hgiven] at hf
    refine ⟨fun hread => ?_, hholds.flowAt_ok hsound hf⟩
    by_contra hbad
    obtain ⟨_, hstuck⟩ := (hholds.stuck_flowAt hsound id).mpr ⟨f, hf, Bool.eq_false_iff.mpr hbad⟩
    cases hread.symm.trans hstuck
  · refine (hholds.stuck_iff_needs hsound hop).trans ?_
    simp only [hgiven]

/-- A flow that is created, and then created again in vain, is read as it was given out. -/
theorem readable_iff_createdTwice :
    let now : Moment := Instant.toMoment ⟨63000000000000000⟩
    let asked : List (Moment × Operation) :=
      [(now, .create (.bare "a")), (now, .create (.bare "a"))]
    Store.AreWellFormed asked ∧ ∃ j t, (Store.table (.empty default (2 : Nat))).run asked =
      (j, .table t) ∧
      j.map (·.isAnswered) = [true, false] ∧ t.flowAt "a" = .ok (.new (.bare "a") now) := by
  intro now asked
  have hnow : now.WellFormed := Instant.toMoment_wellFormed (by decide)
  have hflow : (Flow.bare "a").WellFormed := Flow.bare_wellFormed (by decide) (by decide)
  have hasked : Store.AreWellFormed asked := by
    intro q hq
    simp only [asked, List.mem_cons, List.not_mem_nil, or_false, or_self] at hq
    exact hq ▸ ⟨hnow, hflow⟩
  have hread := @readable_iff default 2 asked hasked _ _ rfl
  exact ⟨hasked, _, _, rfl, by decide +kernel, (hread.2.1 "a" _ rfl).mpr rfl⟩

end Table

end Cadence
