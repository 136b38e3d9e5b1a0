/-
Where the records of runs come from.

A run holds on to the flow that it began with, whatever becomes of the flow in the meantime.

* `Phase.IsArrival` — what may arrive from outside: requests, runs that are asked for,
  sweeps and rows of sweeps;
* `Trace.Loads` — a run began with a flow as the store held it then;
* `Engine.Traced` — the invariant: the store follows the trace, and whatever is within a run
  comes to a record of a flow that the run began with;
* `Course.traced` — it holds in every course.
-/
import Cadence.Proofs.Scheduler.Course
import Cadence.Proofs.Scheduler.Due
import Cadence.Proofs.Store.Edits

namespace Cadence

open Calendar

/-! ### Arrivals -/

/-- Whether a run belongs to a sweep. -/
def Goal.isSweep : Goal → Bool
  | .sweep _ _ => true
  | _ => false

/-- What may arrive from outside. -/
inductive Phase.IsArrival : Phase → Prop where
  | request {op : Operation} (hop : op.WellFormed) : IsArrival (.request op)
  | judge (id : String) (now : Option Moment) : IsArrival (.judge id now)
  | load {interpret : Interpreter} (hi : interpret.IsTimely) (id : String)
      (trigger : Trigger) {goal : Goal}
      (hgoal : goal.isSweep = false) : IsArrival (.load id trigger interpret goal)
  | sweep (now : Option Moment) (outages : Outages) : IsArrival (.sweep now outages false)
  | commence (plan : Plan) : IsArrival (.commence plan)
  | stop : IsArrival .stop
  | close : IsArrival .close

/-! ### What runs begin with -/

/-- A request whose answer an activity begins its run with: it loads the flow itself, or its
sweep lists the flows. -/
inductive Deed.Shows (d : Deed) (i : Nat) (trigger : Trigger) (goal : Goal)
    (f : StoredFlow) : Prop where
  | loaded {interpret : Interpreter} (hactor : d.actor.id = i)
      (hphase : d.actor.phase = .load f.id trigger interpret goal) (hgoal : goal.isSweep = false)
      (hanswer : d.entry.answer = .ok (.flow f))
  | listed {now : Option Moment} {outages : Outages} {spawned refused : Bool} {fs : List StoredFlow}
      (hbegan : d.Began i) (hphase : d.actor.phase = .survey now outages spawned)
      (htrigger : trigger = .cron) (hgoal : goal = .sweep f refused)
      (hanswer : d.entry.answer = .ok (.flows fs)) (hlisted : f ∈ fs)

/-- An activity begins its run with a flow as the store holds it at that point of a trace. -/
def Trace.Loads (trace : Trace) (i : Nat) (trigger : Trigger) (goal : Goal)
    (f : StoredFlow) : Prop :=
  ∃ (before : Trace) (d : Deed) (after : Trace), trace = before ++ d :: after ∧
    d.Shows i trigger goal f ∧ before.journal.stored f.id = some f

theorem Trace.Loads.append {trace : Trace} {i : Nat} {trigger : Trigger} {goal : Goal}
    {f : StoredFlow} (h : trace.Loads i trigger goal f) (trace' : Trace) :
    (trace ++ trace').Loads i trigger goal f := by
  obtain ⟨before, d, after, rfl, hshows, hstored⟩ := h
  exact ⟨before, d, after ++ trace', by rw [List.append_assoc, List.cons_append], hshows, hstored⟩

/-- The phase of an activity that, within a run, comes to a well-formed record of a flow
that the run began with. -/
def Phase.HasOrigin (trace : Trace) (i : Nat) : Phase → Prop
  | .request op => op.WellFormed
  | .load _ _ interpret goal => interpret.IsTimely ∧ goal.isSweep = false
  | .run task goal => ∃ f trigger, trace.Loads i trigger goal f ∧
      ∀ c, task.Ends .loose (fun _ r => r.WellFormed ∧ r.IsOf f trigger) c
  | .append r goal =>
    goal ≠ .look ∧ ∃ f trigger, trace.Loads i trigger goal f ∧ r.WellFormed ∧
      r.IsOf f trigger
  | _ => True

theorem Phase.IsArrival.hasOrigin {phase : Phase} (h : phase.IsArrival) (trace : Trace) (i : Nat) :
    phase.HasOrigin trace i := by
  cases h with
  | request hop => exact hop
  | load hi id trigger hgoal => exact ⟨hi, hgoal⟩
  | judge id now => exact True.intro
  | sweep now outages => exact True.intro
  | commence plan => exact True.intro
  | stop => exact True.intro
  | close => exact True.intro

theorem Phase.HasOrigin.append {trace : Trace} {i : Nat} {phase : Phase}
    (h : phase.HasOrigin trace i) (trace' : Trace) :
    phase.HasOrigin (trace ++ trace') i := by
  cases phase with
  | request op => exact h
  | load id trigger interpret goal => exact h
  | run task goal =>
    obtain ⟨f, trigger, hloads, hends⟩ := h
    exact ⟨f, trigger, hloads.append trace', hends⟩
  | append r goal =>
    obtain ⟨hgoal, f, trigger, hloads, hr⟩ := h
    exact ⟨hgoal, f, trigger, hloads.append trace', hr⟩
  | _ => exact True.intro

/-- The requests of activities are well-formed. -/
theorem Phase.HasOrigin.wellFormed {trace : Trace} {i : Nat} {phase : Phase}
    (h : phase.HasOrigin trace i) {op : Operation}
    (hop : phase.request? = some op) : op.WellFormed := by
  cases phase with
  | request op' =>
    obtain rfl := Option.some_inj.mp hop
    exact h
  | judge id now =>
    obtain rfl := Option.some_inj.mp hop
    exact True.intro
  | load id trigger interpret goal =>
    obtain rfl := Option.some_inj.mp hop
    exact True.intro
  | append r goal =>
    obtain ⟨_, f, trigger, _, hr, _⟩ := h
    rw [Phase.append_request? hop]
    exact hr
  | survey now outages spawned =>
    rw [Phase.survey_request? hop]
    exact True.intro
  | _ => cases hop

/-! ### The invariant -/

/-- The store follows the trace, and the records of runs come from the flows that the runs
began with. -/
structure Engine.Traced (limit : Nat) (trace : Trace) (s : Engine) : Prop where
  orderly : s.IsOrderly
  clock : inCalendar s.clock.micros = true
  interpret : s.interpret.IsTimely
  store : ∃ m, s.store.Holds m ∧ m.Sound ∧ (Memory.empty limit).Follows trace.journal m
  going : ∀ a ∈ s.activities, a.phase.HasOrigin trace a.id

namespace Engine

variable {limit : Nat} {trace : Trace} {s : Engine} {a : Activity} {m : Move}

/-- What a store at rest holds is what follows from no requests. -/
theorem start_traced {world : Surroundings} (hclock : inCalendar world.clock.micros = true)
    {store : Store} (hstore : store.Holds (.empty limit)) {interpret : Interpreter}
    (hi : interpret.IsTimely) :
    (start world store interpret).Traced limit [] where
  orderly := ⟨List.nodup_nil, fun _ hb => by cases hb⟩
  clock := hclock
  interpret := hi
  store := ⟨_, hstore, Memory.empty_sound limit, .refl _⟩
  going := fun _ hb => by cases hb

/-- After a request the store follows the longer trace. -/
theorem Traced.store_step (h : s.Traced limit trace) (ha : a ∈ s.activities) :
    ∃ m, (s.storeAfter a).Holds m ∧ m.Sound ∧
      (Memory.empty limit).Follows (trace ++ (s.deed? a).toList : Trace).journal m := by
  obtain ⟨m, hholds, hsound, hfollows⟩ := h.store
  cases hrequest : a.phase.request? with
  | none =>
    rw [storeAfter_none hrequest, deed?_none hrequest, Option.toList_none, List.append_nil]
    exact ⟨m, hholds, hsound, hfollows⟩
  | some op =>
    -- requests are made at the time of the clock, which lies in the calendar
    obtain ⟨m', hholds', hsound', hstep⟩ := hholds.step hsound ((h.going a ha).wellFormed hrequest)
      (Instant.toMoment_wellFormed h.clock)
    rw [storeAfter_some hrequest, deed?_some hrequest, Trace.journal_append]
    exact ⟨m', hholds', hsound', hfollows.trans hstep⟩

/-- What a flow that the store gives out is like. -/
theorem Traced.found (h : s.Traced limit trace) {id : String} {f : StoredFlow}
    (hanswer : s.answer (.find id) = .ok (.flow f)) :
    f.id = id ∧ f.definition.WellFormed ∧ trace.journal.stored f.id = some f := by
  obtain ⟨m, hholds, hsound, hfollows⟩ := h.store
  obtain ⟨g, hg, hlookup⟩ := hholds.find_ok hsound hanswer
  obtain rfl := Answer.flow.inj hg
  have hkept := hsound.flow id f hlookup
  obtain rfl := hkept.own
  exact ⟨rfl, hkept.wellFormed.definition, (hfollows.stored _).symm.trans hlookup⟩

/-- What flows that the store lists are like. -/
theorem Traced.listed (h : s.Traced limit trace) {ans : Answer}
    (hanswer : s.answer .all = .ok ans) :
    ans = .flows ans.flowList ∧ (ans.flowList.map (·.id)).Nodup ∧
      ∀ f ∈ ans.flowList, f.definition.WellFormed ∧ trace.journal.stored f.id = some f := by
  obtain ⟨m, hholds, hsound, hfollows⟩ := h.store
  obtain ⟨fs, rfl, hperm⟩ := hholds.all_ok hsound hanswer
  refine ⟨rfl, ?_, fun f hf => ?_⟩
  · have hnodup := hsound.single
    rw [← Memory.ids_eq_names hsound] at hnodup
    exact (hperm.map _).nodup_iff.mpr hnodup
  · have hlookup := Memory.lookup_of_mem hsound (hperm.mem_iff.mp hf)
    exact ⟨(hsound.flow f.id f hlookup).wellFormed.definition,
      (hfollows.stored _).symm.trans hlookup⟩

/-- A request that shows a flow is where a run begins. -/
theorem loads_of_shows {op : Operation} (hrequest : a.phase.request? = some op) {i : Nat}
    {trigger : Trigger} {goal : Goal} {f : StoredFlow}
    (hshows : Deed.Shows ⟨a, s.count, (s.step a).count, ⟨s.now, op, s.answer op⟩⟩ i trigger goal f)
    (hstored : trace.journal.stored f.id = some f) :
    Trace.Loads (trace ++ (s.deed? a).toList) i trigger goal f := by
  rw [deed?_some hrequest]
  exact ⟨trace, _, [], rfl, hshows, hstored⟩

/-- An activity that goes on has an origin in the longer trace. -/
theorem Traced.moves (h : s.Traced limit trace) (ha : a ∈ s.activities) (hm : s.Allows a m)
    {turn : Turn} {phase : Phase} (hfate : m.fate = .onward turn phase) :
    phase.HasOrigin (trace ++ (s.deed? a).toList) a.id := by
  have horigin := h.going a ha
  cases hm.onward hfate with
  | loads hphase hanswer =>
    rw [hphase] at horigin
    obtain ⟨rfl, hwell, hstored⟩ := h.found hanswer
    -- the run begins with the flow that has just been given out
    have hshows := loads_of_shows (by rw [hphase]; rfl)
      (.loaded rfl hphase horigin.2 hanswer) hstored
    exact ⟨_, _, hshows, StoredFlow.record_loose horigin.1 hwell _⟩
  | waits hphase =>
    rw [hphase] at horigin
    obtain ⟨f, trigger, hloads, hends⟩ := horigin
    exact ⟨f, trigger, hloads.append _, fun c => hends c () c True.intro⟩
  | @asks e next goal hphase he =>
    rw [hphase] at horigin
    obtain ⟨f, trigger, hloads, hends⟩ := horigin
    exact ⟨f, trigger, hloads.append _, fun c =>
      hends s.clock _ c (s.world.perform_loose h.clock e c)⟩
  | finishes hphase hgoal =>
    rw [hphase] at horigin
    obtain ⟨f, trigger, hloads, hends⟩ := horigin
    exact ⟨hgoal, f, trigger, hloads.append _, hends s.clock⟩
  | sweeps hphase => exact True.intro
  | surveys hphase hrequest => exact True.intro
  | goesOn hphase hrow =>
    exact Phase.of_isRow hrow (fun _ => True.intro) (fun _ => True.intro)
      (fun _ => True.intro) True.intro

/-- An activity that begins has an origin in the longer trace. -/
theorem Traced.begins (h : s.Traced limit trace) (hm : s.Allows a m)
    (hbecomes : s.Becomes a m (s.step a)) {k : Nat} {phase : Phase}
    (hbegun : m.begun[k]? = some phase) :
    phase.HasOrigin (trace ++ (s.deed? a).toList) (s.count + k) := by
  have hk : k < m.begun.length := (List.getElem?_eq_some_iff.mp hbegun).1
  have hcount := hbecomes.count
  cases hm.begins hbegun with
  | @run now outages spawned ans t due f hphase hrequest hanswer hnow hdue hf =>
    obtain ⟨hans, _, hlisted⟩ := h.listed hanswer
    have hmem : f ∈ ans.flowList := (judgeAll_sublist hdue).mem hf
    obtain ⟨hwell, hstored⟩ := hlisted f hmem
    unfold runPhase
    split
    · exact True.intro
    -- the run gets an id that is given out in this step, and the flow is one of those that
    -- were listed
    · have hbegan : s.count + k < (s.step a).count := by omega
      exact ⟨f, .cron, loads_of_shows hrequest
        (.listed ⟨Nat.le_add_right _ _, hbegan⟩ hphase rfl rfl (hans ▸ hanswer) hmem) hstored,
        StoredFlow.record_loose h.interpret hwell .cron⟩
  | sweep outages hphase => exact True.intro

/-- **A step keeps the invariant.** -/
theorem Traced.step (h : s.Traced limit trace) (ha : a ∈ s.activities) :
    (s.step a).Traced limit (trace ++ (s.deed? a).toList) := by
  obtain ⟨m, hm, hbecomes⟩ := step_moves h.orderly ha
  exact {
    orderly := hbecomes.orderly
    clock := hbecomes.clock ▸ h.clock
    interpret := hbecomes.interpret ▸ h.interpret
    store := hbecomes.store ▸ h.store_step ha
    going := by
      intro b hb
      cases hbecomes.going b hb with
      | stays hgoing hother => exact (h.going b hgoing).append _
      | moves hfate hid => exact hid ▸ h.moves ha hm hfate
      | begins hbegun hid hturn => exact hid ▸ h.begins hm hbecomes hbegun }

end Engine

/-- **The invariant holds in every course.** -/
theorem Course.traced {arrives : Phase → Prop} {quiet : Engine → Prop}
    (harrives : ∀ p, arrives p → p.IsArrival) {limit : Nat} {before trace : Trace}
    {s s' : Engine} (h : Course arrives quiet s trace s') (hs : s.Traced limit before) :
    s'.Traced limit (before ++ trace) := by
  induction h with
  | refl => rwa [List.append_nil]
  | act _ hgoing _ _ ih =>
    rw [← List.append_assoc]
    exact ih.step hgoing
  | pass _ _ hlater hcalendar ih =>
    refine ⟨ih.orderly.waitUntil _, ?_, ih.interpret, ih.store, ih.going⟩
    rw [Engine.waitUntil_clock hlater]
    exact hcalendar
  | arrive _ hphase t ih =>
    refine ⟨ih.orderly.spawn _ _, ih.clock, ih.interpret, ih.store, fun b hb => ?_⟩
    rcases List.mem_append.mp hb with hb | hb
    · exact ih.going b hb
    · obtain rfl := List.mem_singleton.mp hb
      exact (harrives _ hphase).hasOrigin _ _

end Cadence
