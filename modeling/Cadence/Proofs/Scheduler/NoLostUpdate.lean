/-
No update is lost between runs and edits.

A run loads a flow, goes on for a while and puts its record into the history of the flow.
In the meantime the flow may be edited, and other runs of it may come and go; neither undoes
what the other has done.

* `Trace.IsFaithful` — every record that is put into a history shows the flow as the run loaded it;
* `Engine.KeepsRuns` — the runs that are completed are those that were put into histories,
  each once;
* `Store.KeepsUp` — a flow is what its edits alone make of it, and the end of its latest run
  and its history are what its runs alone make of them;
* `Course.no_lost_update` — in every course a store in memory keeps up with every flow that
  stays, and a store in tables keeps up with just those flows whose definitions and kept
  runs come back from their rows as they were.
-/
import Cadence.Proofs.Scheduler.Ledger

namespace Cadence

open Calendar

/-! ### Runs -/

/-- Whenever a run puts a record into a history, the record shows the flow that the run
began with: the flow as the store held it when the run, or its sweep, asked for it. -/
def Trace.IsFaithful (trace : Trace) : Prop :=
  ∀ (before : Trace) (d : Deed) (after : Trace), trace = before ++ d :: after →
    ∀ r goal, d.actor.phase = .append r goal →
      ∃ f trigger, before.Loads d.actor.id trigger goal f ∧ r.IsOf f trigger

/-- The runs that are completed and the records in histories correspond to each other, but
for runs that were only to be looked at. -/
structure Engine.KeepsRuns (trace : Trace) (s : Engine) : Prop where
  faithful : trace.IsFaithful
  recorded : ∀ e ∈ s.endings, ∀ r, e.ending = .record r → trace.putBy e.id = [r] ∨ trace.Looks e.id
  completed : ∀ d ∈ trace, d.actor.phase.isRun = true → ∀ r, d.entry.put? = some r →
    ∃ e ∈ s.endings, e.id = d.actor.id ∧ e.ending = .record r

theorem Trace.IsFaithful.append {trace : Trace} (h : trace.IsFaithful) {d : Deed}
    (hd : ∀ r goal, d.actor.phase = .append r goal →
      ∃ f trigger, trace.Loads d.actor.id trigger goal f ∧ r.IsOf f trigger) :
    Trace.IsFaithful (trace ++ [d]) := by
  intro before d' after heq
  rcases List.eq_nil_or_concat after with rfl | ⟨after', x, rfl⟩
  · obtain ⟨rfl, hlast⟩ := List.append_inj' heq rfl
    obtain rfl := (List.cons.inj hlast).1
    exact hd
  · rw [List.concat_eq_append, ← List.cons_append, ← List.append_assoc] at heq
    exact h before d' after' (List.append_inj' heq rfl).1

namespace Course

variable {arrives : Phase → Prop} {quiet : Engine → Prop} {limit : Nat}
  {before trace : Trace} {s s' : Engine}

/-- In every course records show the flows that the runs began with. -/
theorem isFaithful (harrives : ∀ p, arrives p → p.IsArrival)
    (h : Course arrives quiet s trace s') (hs : s.Traced limit before)
    (hbefore : before.IsFaithful) : Trace.IsFaithful (before ++ trace) := by
  induction h with
  | refl => rwa [List.append_nil]
  | @act trace s' hcourse a t hgoing hturn htime ih =>
    have htraced := hcourse.traced harrives hs
    cases hdeed : s'.deed? a with
    | none =>
      rw [Option.toList_none, List.append_nil]
      exact ih
    | some d =>
      rw [Option.toList_some, ← List.append_assoc]
      refine ih.append fun r goal hphase => ?_
      obtain ⟨op, _, rfl⟩ := Option.map_eq_some_iff.mp hdeed
      -- the invariant says where the record of a run that is about to end comes from
      have horigin := htraced.going a hgoing
      rw [show a.phase = .append r goal from hphase] at horigin
      obtain ⟨_, f, trigger, hloads, _, hof⟩ := horigin
      exact ⟨f, trigger, hloads, hof⟩
  | pass _ _ _ _ ih => exact ih
  | arrive _ _ _ ih => exact ih

end Course

/-! ### A flow that stays -/

/-- What becomes of a flow: edits leave everything alone but its definition and the moment
of its last edit, and runs leave everything alone but the end of the latest run and the
history.  The journal `before` ends where the flow is `f`, and `edits` is what the store is
asked from there on. -/
structure Store.KeepsUp (s : Store) (limit : Nat) (f : StoredFlow)
    (before edits : Journal) : Prop where
  flow : ∀ now, ∃ g, (s.apply now (.find f.id)).1 = .ok (.flow g) ∧
    g.id = f.id ∧ g.createdAt = f.createdAt ∧
    g.definition = (edits.changed f.id f).definition ∧
      g.updatedAt = (edits.changed f.id f).updatedAt ∧
    g.lastRunAt = ((edits.putUnder f.id).getLast?.map (·.finishedAt)).or f.lastRunAt
  history : ∀ now, (s.apply now (.runs f.id none)).1 =
    .ok (.runs (((edits.putUnder f.id).reverse ++ before.appended f.id []).take limit))

/-- The requests of a trace spare a flow, and the store can read every definition that they
give it. -/
def Trace.Spares (trace : Trace) (s : Store) (id : String) : Prop :=
  ∀ d ∈ trace, d.entry.Spares id ∧ ∀ g, d.entry.operation = .revise id g → s.Reads g.toJson

/-- Requests of a trace have given a flow a definition that the store cannot read. -/
def Trace.Spoils (trace : Trace) (s : Store) (id : String) : Prop :=
  ∃ d ∈ trace, ∃ g, d.entry.operation = .revise id g ∧ ¬ s.Reads g.toJson

namespace Engine

variable {limit : Nat} {before trace : Trace} {s : Engine} {a : Activity} {f : StoredFlow}

/-- What a flow that was spared is now. -/
theorem stored_of_spared (hf : before.journal.stored f.id = some f) {base : Store}
    (h : trace.Spares base f.id) :
    (before ++ trace : Trace).journal.stored f.id = some ((trace.journal.changed f.id f).withLastRun
      (((trace.journal.putUnder f.id).getLast?.map (·.finishedAt)).or f.lastRunAt)) := by
  rw [Trace.journal_append]
  refine Journal.stored_of_spares hf fun e he => ?_
  obtain ⟨d, hd, rfl⟩ := List.mem_map.mp he
  exact (h d hd).1

theorem reads_of_spared {base : Store} (hread : base.Reads f.definition.toJson)
    (h : trace.Spares base f.id) :
    base.Reads (trace.journal.changed f.id f).definition.toJson := by
  refine base.reads_changed hread fun e he g hop => ?_
  obtain ⟨d, hd, rfl⟩ := List.mem_map.mp he
  exact (h d hd).2 g hop

end Engine

/-- While a flow stays, either all requests spare it, or it was given a definition that the
store cannot read, and then it stays as it is. -/
def Trace.Stays (before trace : Trace) (s : Store) (id : String) : Prop :=
  trace.Spares s id ∨ trace.Spoils s id ∧
    ∃ g, (before ++ trace : Trace).journal.stored id = some g ∧ ¬ s.Reads g.definition.toJson

/-- One more request, to a store that holds what follows from the trace. -/
theorem Trace.Stays.append {limit : Nat} {before trace : Trace} {base s : Store}
    {f : StoredFlow} (h : Trace.Stays before trace base f.id)
    (hf : before.journal.stored f.id = some f) (hread : base.Reads f.definition.toJson)
    (hreads : s.Reads = base.Reads) {m : Memory} (hholds : s.Holds m) (hsound : m.Sound)
    (hfollows : (Memory.empty limit).Follows (before ++ trace : Trace).journal m) {d : Deed}
    {now : Moment} {op : Operation} (hd : d.entry = ⟨now, op, (s.apply now op).1⟩)
    (hop : op ≠ .remove f.id) : Trace.Stays before (trace ++ [d]) base f.id := by
  have hjournal : (before ++ (trace ++ [d]) : Trace).journal =
      (before ++ trace : Trace).journal ++ [d.entry] := by
    rw [← List.append_assoc]
    exact Trace.journal_append _ _
  rw [Trace.Stays, hjournal]
  rcases h with hspares | ⟨⟨d', hd', g, hg, hbad⟩, k, hk, hkbad⟩
  -- so far all requests spared the flow, and now it is what they made of it
  · have hstored := Engine.stored_of_spared hf hspares
    have hlookup := (hfollows.stored f.id).trans hstored
    have hchanged : s.Reads (trace.journal.changed f.id f).definition.toJson := by
      rw [hreads]
      exact Engine.reads_of_spared hread hspares
    have hnew : d.entry.Spares f.id := hd ▸ hholds.spares hsound hlookup hchanged hop
    by_cases hspoils : ∃ g, d.entry.operation = .revise f.id g ∧ ¬ base.Reads g.toJson
    · -- the flow gets a definition that the store cannot read
      obtain ⟨g, hg, hbad⟩ := hspoils
      refine Or.inr ⟨⟨d, List.mem_append_right _ (List.mem_singleton_self d), g, hg, hbad⟩, _,
        Journal.stored_of_spares hstored fun e he => List.mem_singleton.mp he ▸ hnew, ?_⟩
      have hdefinition (x : StoredFlow) : (Journal.changed f.id x [d.entry]).definition = g := by
        rw [Journal.changed, List.foldl_cons, List.foldl_nil, Entry.change, hg]
        simp only [if_true]
        rfl
      rw [show ∀ x : StoredFlow, ∀ last, (x.withLastRun last).definition = x.definition
        from fun _ _ => rfl, hdefinition]
      exact hbad
    · refine Or.inl fun d' hd' => ?_
      rcases List.mem_append.mp hd' with hd' | hd'
      · exact hspares d' hd'
      · obtain rfl := List.mem_singleton.mp hd'
        refine ⟨hnew, fun g hg => ?_⟩
        by_contra hbad
        exact hspoils ⟨g, hg, hbad⟩
  · -- whatever concerns the flow is refused
    refine Or.inr ⟨⟨d', List.mem_append_left _ hd', g, hg, hbad⟩, k, ?_, hkbad⟩
    rw [← hk]
    refine Journal.stored_of_idle fun hconcerns => ?_
    rw [hd] at hconcerns ⊢
    exact hholds.refused hsound ((hfollows.stored f.id).trans hk)
      (by rw [hreads]; exact hkbad) hconcerns

/-- A store keeps up with a flow just if it can read every definition that the flow was
given and every run that is kept. -/
theorem Store.keepsUp_iff {limit : Nat} {before trace : Trace} {base s : Store}
    {f : StoredFlow} {m : Memory} (hne : f.id ≠ "")
    (hf : before.journal.stored f.id = some f) (hread : base.Reads f.definition.toJson)
    (hstays : Trace.Stays before trace base f.id) (hreads : s.Reads = base.Reads)
    (hholds : s.Holds m) (hsound : m.Sound)
    (hfollows : (Memory.empty limit).Follows (before ++ trace : Trace).journal m) :
    s.KeepsUp limit f before.journal trace.journal ↔
      (∀ d ∈ trace, ∀ g, d.entry.operation = .revise f.id g → base.Reads g.toJson) ∧
      ∀ run ∈ ((trace.journal.putUnder f.id).reverse ++ before.journal.appended f.id []).take limit,
        base.Reads run.toJson := by
  have hlookup := hfollows.stored f.id
  -- what is said of a flow that all requests spared
  have hhistory (h : trace.Spares base f.id) : m.history f.id =
      ((trace.journal.putUnder f.id).reverse ++ before.journal.appended f.id []).take limit := by
    have hjournal :
        m.history f.id = ((before ++ trace : Trace).journal.appended f.id []).take limit :=
      hfollows.history f.id [] List.take_nil.symm
    rw [hjournal, Trace.journal_append, Journal.appended, List.foldl_append]
    refine congrArg (List.take limit) (Journal.appended_of_spares _ fun e he => ?_)
    obtain ⟨d, hd, rfl⟩ := List.mem_map.mp he
    exact (h d hd).1
  rcases hstays with hspares | ⟨⟨d, hd, g, hg, hbad⟩, k, hk, hkbad⟩
  · have hstored := hlookup.trans (Engine.stored_of_spared hf hspares)
    have hchanged := Engine.reads_of_spared hread hspares
    rw [← hhistory hspares, ← hreads]
    rw [← hreads] at hchanged
    obtain ⟨hid, hcreated⟩ := trace.journal.changed_same hne
    constructor
    · intro h
      have hruns := h.history default
      rw [← hhistory hspares] at hruns
      refine ⟨fun d hd g hg => ?_, (hholds.runs_iff hsound hstored hchanged).mp hruns⟩
      rw [hreads]
      exact (hspares d hd).2 g hg
    · rintro ⟨_, hall⟩
      refine ⟨fun now =>
        ⟨_, (hholds.find_iff hsound).mpr ⟨hstored, hchanged⟩, hid, hcreated, rfl, rfl, rfl⟩,
        fun now => ?_⟩
      rw [← hhistory hspares]
      exact (hholds.runs_iff hsound hstored hchanged).mpr hall
  · constructor
    · intro h
      -- the flow would have to be given out, but it cannot be read
      obtain ⟨g', hg', _⟩ := h.flow default
      obtain ⟨hfound, hfread⟩ := (hholds.find_iff hsound).mp hg'
      obtain rfl := Option.some_inj.mp ((hlookup.trans hk).symm.trans hfound)
      rw [hreads] at hfread
      exact absurd hfread hkbad
    · rintro ⟨hall, _⟩
      exact absurd (hall d hd g hg) hbad

namespace Course

variable {quiet : Engine → Prop} {codec : Codec} {limit : Nat} {before trace : Trace}
  {s s' : Engine} {f : StoredFlow}

/-- What a store can read stays the same in every course. -/
theorem reads_eq {arrives : Phase → Prop} (harrives : ∀ p, arrives p → p.IsArrival)
    (h : Course arrives quiet s trace s') (hs : s.Traced limit before) :
    s'.store.Reads = s.store.Reads := by
  induction h with
  | refl => rfl
  | act hcourse hgoing _ _ ih =>
    obtain ⟨m, _, hbecomes⟩ := Engine.step_moves (hcourse.traced harrives hs).orderly hgoing
    rw [hbecomes.store, Engine.storeAfter]
    split
    · exact (Store.reads_apply _ _ _).trans ih
    · exact ih
  | pass _ _ _ _ ih => exact ih
  | arrive _ _ _ ih => exact ih

/-- **A flow that is never removed is spared until it is given a definition that the store
cannot read, and then it stays as it is.** -/
theorem stays (h : Course Phase.IsArrival quiet s trace s') (hs : s.Traced limit before)
    (hf : before.journal.stored f.id = some f) (hread : s.store.Reads f.definition.toJson)
    (hkept : ∀ d ∈ trace, d.entry.operation ≠ .remove f.id) :
    Trace.Stays before trace s.store f.id := by
  induction h with
  | refl => exact Or.inl fun _ hd => by cases hd
  | @act trace s' hcourse a t hgoing hturn htime ih =>
    have hprevious := ih fun d hd => hkept d (List.mem_append_left _ hd)
    have hreads := hcourse.reads_eq (fun _ hp => hp) hs
    obtain ⟨m, hholds, hsound, hfollows⟩ := (hcourse.traced (fun _ hp => hp) hs).store
    cases hdeed : s'.deed? a with
    | none =>
      rw [Option.toList_none, List.append_nil]
      exact hprevious
    | some d =>
      rw [hdeed] at hkept
      have hop := hkept d (List.mem_append_right _ (List.mem_singleton_self d))
      obtain ⟨op, _, rfl⟩ := Option.map_eq_some_iff.mp hdeed
      exact hprevious.append hf hread hreads hholds hsound hfollows rfl hop
  | pass _ _ _ _ ih => exact ih hkept
  | arrive _ _ _ ih => exact ih hkept

/-- **No update is lost.**  Let a flow be stored and never be removed from some point of a
course on.  Each run that is completed puts just its record into a history, with the flow as
the run, or its sweep, found it.  In a store in memory, the flow at the end is what the
edits alone make of it, with the end of the run that was put into its history last, and its
history lists what runs have put there, as far as the limit allows.  The same holds of a
store in tables just if every definition that the flow was given and every run that is kept
hold only finite numbers and can be read from what was written of them. -/
theorem no_lost_update {world : Surroundings} (hclock : inCalendar world.clock.micros = true)
    {interpret : Interpreter} (hi : interpret.IsTimely) {store : Store}
    (hstore : store = .memory (.empty limit) ∨ store = .table (.empty codec limit))
    (hbefore : Course Phase.IsArrival quiet (.start world store interpret) before s)
    (hcourse : Course Phase.IsArrival quiet s trace s') {now : Moment}
    (hf : (s.store.apply now (.find f.id)).1 = .ok (.flow f))
    (hkept : ∀ d ∈ trace, d.entry.operation ≠ .remove f.id) :
    s'.KeepsRuns (before ++ trace) ∧
    (store = .memory (.empty limit) → s'.store.KeepsUp limit f before.journal trace.journal) ∧
    (store = .table (.empty codec limit) → (s'.store.KeepsUp limit f before.journal trace.journal ↔
      (∀ d ∈ trace, ∀ g, d.entry.operation = .revise f.id g → codec.keeps g.toJson = true) ∧
      ∀ run ∈ ((trace.journal.putUnder f.id).reverse ++ before.journal.appended f.id []).take limit,
        codec.keeps run.toJson = true)) := by
  have hempty : store.Holds (.empty limit) := Store.holds_empty hstore
  have hstart := Engine.start_traced hclock hempty hi
  have hs := hbefore.traced (fun _ hp => hp) hstart
  have hs' := hcourse.traced (fun _ hp => hp) hs
  have hreads := hbefore.reads_eq (fun _ hp => hp) hstart
  have hreads' := hcourse.reads_eq (fun _ hp => hp) hs
  constructor
  · have hwhole := hbefore.trans hcourse
    have hnone : Trace.IsFaithful [] := fun before d after h => by simp at h
    have hfaithful := hwhole.isFaithful (fun _ hp => hp) hstart hnone
    have haccounts := hwhole.accounts (fun _ hp => hp) hstart (Engine.start_accounts _ _ _)
    rw [List.nil_append] at hfaithful haccounts
    exact ⟨hfaithful, haccounts.recorded, haccounts.completed⟩
  · obtain ⟨m, hholds, hsound, hfollows⟩ := hs.store
    obtain ⟨hlookup, hread⟩ := (hholds.find_iff hsound).mp hf
    have hstored := (hfollows.stored f.id).symm.trans hlookup
    obtain ⟨m', hholds', hsound', hfollows'⟩ := hs'.store
    have hiff := Store.keepsUp_iff (hsound.flow f.id f hlookup).ne hstored hread
      (hcourse.stays hs hstored hread hkept) hreads' hholds' hsound' hfollows'
    rw [hreads] at hiff
    constructor
    · rintro rfl
      exact hiff.mpr ⟨fun _ _ _ _ => True.intro, fun _ _ => True.intro⟩
    · rintro rfl
      exact hiff

/-- A run that goes on while its flow is disabled is kept, and the flow stays disabled. -/
theorem no_lost_update_disabledInRun :
    let clock : Instant := ⟨63000000000000000⟩
    let f : StoredFlow := .new (.bare "a") clock.toMoment
    let start : Engine := .start (.start clock (fun _ _ => ⟨0, .ok default⟩) fun _ => "run")
      (.memory (.empty (2 : Nat))) (interpreter default)
    ∃ (before trace : Trace) (s s' : Engine),
      Course Phase.IsArrival Engine.AllWait start before s ∧
      Course Phase.IsArrival Engine.AllWait s trace s' ∧
      (trace.journal.putUnder "a").map (·.flow.enabled) = [true] ∧
      (trace.journal.changed "a" f).definition.enabled = false ∧
      s'.KeepsRuns (before ++ trace) ∧ s'.store.KeepsUp 2 f before.journal trace.journal := by
  intro clock f start
  have hnow : clock ≤ clock := Int.le_refl _
  have hbare : (Operation.create (.bare "a")).WellFormed :=
    Flow.bare_wellFormed (by decide) (by decide)
  let s : Engine := (start.spawn (.time clock) (.request (.create (.bare "a")))).step
    ⟨0, .time clock, 0, .request (.create (.bare "a"))⟩
  have hbefore : Course Phase.IsArrival Engine.AllWait start _ s :=
    (Course.refl.arrive (.request hbare) clock).act List.mem_cons_self rfl hnow
  -- the flow is loaded and disabled, and then the run looks at the clock twice, takes an id
  -- and ends
  have hrun : Course Phase.IsArrival Engine.AllWait s [] s := .refl
  replace hrun :=
    hrun.arrive (.load (interpreter_isTimely default) "a" .manual
      (show Goal.keep.isSweep = false from rfl)) clock
  replace hrun := hrun.act (a := ⟨1, .time clock, 1, _⟩) List.mem_cons_self rfl hnow
  replace hrun :=
    hrun.arrive (.request (show (Operation.setEnabled "a" false).WellFormed from True.intro))
      clock
  replace hrun := hrun.act (List.mem_cons_of_mem _ List.mem_cons_self) rfl hnow
  replace hrun := hrun.act (a := ⟨1, .time clock, 1, _⟩) List.mem_cons_self rfl hnow
  replace hrun := hrun.act (a := ⟨1, .time clock, 1, _⟩) List.mem_cons_self rfl hnow
  replace hrun := hrun.act (a := ⟨1, .time clock, 1, _⟩) List.mem_cons_self rfl hnow
  replace hrun := hrun.act (a := ⟨1, .time clock, 1, _⟩) List.mem_cons_self rfl hnow
  replace hrun := hrun.act (a := ⟨1, .time clock, 1, _⟩) List.mem_cons_self rfl hnow
  have hlost := no_lost_update (f := f) rfl (interpreter_isTimely default)
    (Or.inl (b := _ = Store.table (.empty default 2)) rfl) hbefore hrun
    (show (Store.apply _ clock.toMoment (.find "a")).1 = .ok (.flow f) from rfl)
  refine ⟨_, _, _, _, hbefore, hrun, ?_, ?_, (hlost ?_).imp id fun h => h.1 rfl⟩
  · decide +kernel
  · decide +kernel
  · intro d hd hremove
    rcases List.mem_cons.mp hd with rfl | hd
    · cases hremove
    · rcases List.mem_cons.mp hd with rfl | hd
      · cases hremove
      · obtain rfl := List.mem_singleton.mp hd
        cases hremove

end Course

end Cadence
