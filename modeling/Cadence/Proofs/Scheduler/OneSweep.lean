/-
One sweep at a time.

* `Engine.Held` — the guard is held only while a sweep is in flight;
* `Engine.Skips` — a sweep that finds the guard held comes to nothing;
* `Trace.sweptRuns` — the records that the runs of sweeps of a flow put into its history;
* `Engine.Parted` — the invariant: a run of a sweep begins when all earlier ones of the same
  flow have ended;
* `Course.one_sweep` — in every course at most one sweep is in flight, the guard is held
  just as long, and runs of sweeps of the same flow do not overlap.
-/
import Cadence.Proofs.Scheduler.Dates
import Cadence.Proofs.Scheduler.Guard
import Cadence.Proofs.Scheduler.Ledger

namespace Cadence

open Calendar

/-! ### The guard -/

/-- The guard is held only while a sweep is in flight. -/
def Engine.Held (s : Engine) : Prop :=
  s.guard = true → ∃ a ∈ s.activities, a.phase.holdsGuard = true

/-- Whether an activity is a sweep that has yet to look at the guard. -/
def Phase.seeksGuard : Phase → Bool
  | .sweep _ _ _ => true
  | _ => false

/-- A sweep that finds the guard held ends without records. It asks nothing of the store,
begins nothing and leaves the guard to the sweep that is in flight. -/
structure Engine.Skips (s : Engine) (a : Activity) : Prop where
  deed : s.deed? a = none
  store : (s.step a).store = s.store
  activities : (s.step a).activities = s.activities.filter (·.id != a.id)
  endings : (s.step a).endings = ⟨a.id, .swept [], s.clock⟩ :: s.endings
  guard : (s.step a).guard = true

namespace Engine

variable {s u : Engine} {a : Activity} {m : Move}

theorem skips_of_guard (hseeks : a.phase.seeksGuard = true)
    (hguard : s.guard = true) : s.Skips a := by
  obtain ⟨now, outages, spawned, hphase⟩ :
      ∃ now outages spawned, a.phase = .sweep now outages spawned := by
    unfold Phase.seeksGuard at hseeks
    split at hseeks
    · next hphase => exact ⟨_, _, _, hphase⟩
    · cases hseeks
  have hstep : s.step a =
      (s.report .warning "Previous scheduler tick still running; skipping").finish a
        (.swept []) := by
    unfold step
    rw [hphase]
    simp only [sweep]
    rw [if_pos hguard]
  refine ⟨deed?_none (by rw [hphase]; rfl), ?_, ?_, ?_, ?_⟩
  all_goals rw [hstep]
  · rfl
  · rfl
  · rfl
  · exact hguard

theorem Begins.holdsGuard {phase : Phase} (h : s.Begins a phase) : phase.holdsGuard = false := by
  cases h with
  | run hphase hrequest hanswer hnow hdue hf => exact s.runPhase_holdsGuard _ _
  | sweep outages hphase => rfl

theorem start_held (world : Surroundings) (store : Store) (interpret : Interpreter) :
    (start world store interpret).Held := fun hguard => by cases hguard

/-- Whoever holds the guard holds it on while others act. -/
theorem Held.keep (h : s.Held) (hs : s.IsOrderly) (ha : a ∈ s.activities)
    (hbecomes : s.Becomes a m (s.step a)) (hidle : a.phase.holdsGuard = false)
    (hguard : m.guard = s.guard) : (s.step a).Held := by
  intro hheld
  obtain ⟨b, hb, hholds⟩ := h (hguard ▸ hbecomes.guard ▸ hheld)
  refine ⟨b, hbecomes.stay b hb fun hid => ?_, hholds⟩
  rw [hs.unique ha hb hid, hidle] at hholds
  cases hholds

theorem Held.onward (hbecomes : s.Becomes a m (s.step a)) {turn : Turn} {phase : Phase}
    (hfate : m.fate = .onward turn phase) (hholds : phase.holdsGuard = true) : (s.step a).Held := by
  intro _
  obtain ⟨b, hb, _, _, hphase⟩ := hbecomes.onward turn phase hfate
  exact ⟨b, hb, hphase ▸ hholds⟩

theorem Held.step (h : s.Held) (hs : s.IsOrderly) (ha : a ∈ s.activities) : (s.step a).Held := by
  obtain ⟨m, hm, hbecomes⟩ := step_moves hs ha
  have hfree (hguard : m.guard = false) : (s.step a).Held := by
    intro hheld
    cases hguard.symm.trans (hbecomes.guard.symm.trans hheld)
  have hkeep := h.keep hs ha hbecomes
  cases hm with
  | quits hphase hblank hrefused => exact hkeep (Phase.holdsGuard_of_isSweep hphase) rfl
  | loads hphase hanswer => exact hkeep (by rw [hphase]; rfl) rfl
  | waits hphase => exact hkeep (by rw [hphase]; rfl) rfl
  | asks hphase he => exact hkeep (by rw [hphase]; rfl) rfl
  | looks hphase => exact hkeep (by rw [hphase]; rfl) rfl
  | finishes hphase hgoal => exact hkeep (by rw [hphase]; rfl) rfl
  | appends hphase hrequest hanswer => exact hkeep (by rw [hphase]; rfl) rfl
  | skips hphase hguard => exact hkeep (by rw [hphase]; rfl) hguard.symm
  | sweeps hphase hguard => exact Held.onward hbecomes rfl rfl
  | rests hphase hblank hdue => exact hfree rfl
  | surveys hphase hrequest hanswer hnow hdue hsome => exact Held.onward hbecomes rfl rfl
  | collects hphase => exact hfree rfl
  | goesOn hphase hrow hbegun => exact hkeep (Phase.holdsGuard_of_isRow hphase) rfl

/-- When a sweep that was in flight is over, none is. -/
theorem Held.over (h : (s.step a).Held) (hs : s.IsOrderly) (hg : s.Guarded) (ha : a ∈ s.activities)
    (hholds : a.phase.holdsGuard = true) (hover : (s.step a).isGoing a.id = false) :
    (s.step a).guard = false := by
  obtain ⟨m, hm, hbecomes⟩ := step_moves hs ha
  have hgone : ∀ b ∈ (s.step a).activities, b.id ≠ a.id := by
    intro b hb hid
    rw [isGoing, List.any_eq_false] at hover
    exact hover b hb (beq_iff_eq.mpr hid)
  cases hguard : (s.step a).guard with
  | false => rfl
  | true =>
    obtain ⟨b, hb, hbholds⟩ := h hguard
    cases hbecomes.going b hb with
    | stays hgoing hother => exact absurd (hg.single a ha b hgoing hholds hbholds) hother
    | moves hfate hid => exact absurd hid (hgone b hb)
    | begins hbegun hid hturn =>
      -- what a sweep begins are runs
      have hidle := (hm.begins hbegun).holdsGuard
      cases hidle.symm.trans hbholds

end Engine

theorem Course.held {arrives : Phase → Prop} {quiet : Engine → Prop}
    (harrives : ∀ p, arrives p → p.IsArrival) {limit : Nat} {before trace : Trace}
    {s s' : Engine} (h : Course arrives quiet s trace s') (htraced : s.Traced limit before)
    (hs : s.Held) : s'.Held := by
  induction h with
  | refl => exact hs
  | act hcourse hgoing _ _ ih => exact ih.step (hcourse.traced harrives htraced).orderly hgoing
  | pass _ _ _ _ ih => exact ih
  | arrive _ _ t ih =>
    intro hguard
    obtain ⟨b, hb, hholds⟩ := ih hguard
    exact ⟨b, List.mem_append_left _ hb, hholds⟩

/-! ### Runs of sweeps -/

/-- The record that the run of a sweep of a flow put into the history. -/
def Deed.swept? (id : String) (d : Deed) : Option RunRecord :=
  match d.actor.phase.due? with
  | some f => if f.id = id then d.entry.put? else none
  | none => none

/-- The records that the runs of sweeps of a flow put into its history, in order. -/
def Trace.sweptRuns (trace : Trace) (id : String) : List RunRecord :=
  trace.filterMap (Deed.swept? id)

/-- A run had ended at an instant. -/
def RunRecord.EndedBy (r : RunRecord) (c : Instant) : Prop :=
  ∃ d, r.finishedAt = Instant.toMoment d ∧ d ≤ c

/-- One run ended before another one began, or just then. -/
def RunRecord.Precedes (r r' : RunRecord) : Prop :=
  ∃ b, r'.startedAt = Instant.toMoment b ∧ r.EndedBy b

theorem RunRecord.EndedBy.later {r : RunRecord} {c d : Instant} (h : r.EndedBy c)
    (hle : c ≤ d) : r.EndedBy d := by
  obtain ⟨e, hended, he⟩ := h
  exact ⟨e, hended, Int.le_trans he hle⟩

/-- The run of a sweep begins when all earlier ones of the same flow have ended. -/
structure Engine.Parted (id : String) (trace : Trace) (s : Engine) : Prop where
  past : ∀ r ∈ trace.sweptRuns id, r.EndedBy s.clock
  going : ∀ a ∈ s.activities, ∃ since, a.phase.IsTimed since s.clock ∧
    ∀ f, a.phase.due? = some f → f.id = id → ∀ r ∈ trace.sweptRuns id, r.EndedBy since
  apart : (trace.sweptRuns id).Pairwise RunRecord.Precedes

namespace Engine

variable {id : String} {limit : Nat} {trace : Trace} {s : Engine} {a : Activity} {m : Move}
  {t : Instant}

theorem start_parted (id : String) (world : Surroundings) (store : Store)
    (interpret : Interpreter) :
    (start world store interpret).Parted id [] where
  past := fun _ hr => by cases hr
  going := fun _ hb => by cases hb
  apart := List.Pairwise.nil

theorem sweptRuns_step : Trace.sweptRuns (trace ++ (s.deed? a).toList) id =
    trace.sweptRuns id ++ ((s.deed? a).bind (Deed.swept? id)).toList := by
  rw [Trace.sweptRuns, List.filterMap_append, ← Trace.sweptRuns]
  cases s.deed? a with
  | none => rfl
  | some d =>
    rw [Option.toList_some, Option.bind_some, List.filterMap_cons]
    cases d.swept? id <;> rfl

/-- The run of a sweep that puts its record into the history is about to end. -/
theorem swept?_deed {r : RunRecord} (h : (s.deed? a).bind (Deed.swept? id) = some r) :
    s.puts? a = some r ∧ ∃ f goal, a.phase = .append r goal ∧ a.phase.due? = some f ∧
      f.id = id := by
  obtain ⟨d, hdeed, hswept⟩ := Option.bind_eq_some_iff.mp h
  have hactor : d.actor = a := by
    obtain ⟨op, hop, rfl⟩ := Option.map_eq_some_iff.mp hdeed
    rfl
  rw [Deed.swept?, hactor] at hswept
  cases hdue : a.phase.due? with
  | none =>
    rw [hdue] at hswept
    cases hswept
  | some f =>
    rw [hdue] at hswept
    obtain ⟨hid, hput⟩ := Option.ite_none_right_eq_some.mp hswept
    have hputs : s.puts? a = some r := by rw [puts?, hdeed]; exact hput
    have hrequest := (puts?_some hputs).1
    refine ⟨hputs, f, ?_⟩
    cases hphase : a.phase with
    | append r' goal =>
      rw [hphase] at hrequest
      cases Phase.append_request? hrequest
      exact ⟨goal, rfl, rfl, hid⟩
    | run task goal =>
      rw [hphase] at hrequest
      cases hrequest
    | _ =>
      rw [hphase] at hdue
      cases hdue

section

variable (h : s.Parted id trace) (hs : s.Traced limit trace) (hg : s.Guarded)
  (ha : a ∈ s.activities)

include h ha

/-- The run of a sweep that ends began when all others of its flow had ended. -/
theorem Parted.swept {r : RunRecord} (hswept : (s.deed? a).bind (Deed.swept? id) = some r) :
    r.EndedBy s.clock ∧ ∀ r' ∈ trace.sweptRuns id, r'.Precedes r := by
  obtain ⟨_, f, goal, hphase, hdue, hid⟩ := swept?_deed hswept
  obtain ⟨since, htimed, hbefore⟩ := h.going a ha
  rw [hphase] at htimed
  obtain ⟨b, d, hb, hd, hspans⟩ := htimed
  refine ⟨⟨d, hspans.finished, hd⟩, fun r' hr' => ?_⟩
  exact ⟨b, hspans.started, (hbefore f hdue hid r' hr').later hb⟩

/-- An activity that goes on has put nothing into the history, so what it waited for is the same. -/
theorem Parted.onward (hs : s.Traced limit trace) (hm : s.Allows a m) {turn : Turn} {phase : Phase}
    (hfate : m.fate = .onward turn phase) : ∃ since, phase.IsTimed since s.clock ∧
      ∀ f, phase.due? = some f → f.id = id →
        ∀ r ∈ Trace.sweptRuns (trace ++ (s.deed? a).toList) id, r.EndedBy since := by
  obtain ⟨since, htimed, hbefore⟩ := h.going a ha
  refine ⟨since, htimed.moves hm hfate, fun f hf hid r hr => ?_⟩
  refine hbefore f (due?_moves hs ha hm hfate hf) hid r ?_
  have hnone : (s.deed? a).bind (Deed.swept? id) = none := by
    rw [Option.eq_none_iff_forall_ne_some]
    intro r' hr'
    cases (puts?_onward (hm.onward hfate)).symm.trans (swept?_deed hr').1
  rwa [sweptRuns_step, hnone, Option.toList_none, List.append_nil] at hr

include hs hg

theorem Parted.step (hm : s.Allows a m) (hbecomes : s.Becomes a m (s.step a)) :
    (s.step a).Parted id (trace ++ (s.deed? a).toList) := by
  have hpast : ∀ r ∈ Trace.sweptRuns (trace ++ (s.deed? a).toList) id, r.EndedBy s.clock := by
    intro r hr
    rw [sweptRuns_step] at hr
    rcases List.mem_append.mp hr with hr | hr
    · exact h.past r hr
    · exact (h.swept ha (Option.mem_toList.mp hr)).1
  refine ⟨hbecomes.clock ▸ hpast, fun b hb => ?_, ?_⟩
  · rw [hbecomes.clock]
    cases hbecomes.going b hb with
    | stays hgoing hother =>
      obtain ⟨since, htimed, hbefore⟩ := h.going b hgoing
      refine ⟨since, htimed, fun f hf hid r hr => ?_⟩
      rw [sweptRuns_step] at hr
      rcases List.mem_append.mp hr with hr | hr
      · exact hbefore f hf hid r hr
      · -- two runs of sweeps of the same flow would be going on
        obtain ⟨_, g, goal, _, hdue, hgid⟩ := swept?_deed (Option.mem_toList.mp hr)
        exact absurd (hg.apart a ha b hgoing g f hdue hf (hgid.trans hid.symm)) hother
    | moves hfate hid => exact h.onward ha hs hm hfate
    | begins hbegun hid hturn =>
      exact ⟨s.clock, .begins (Int.le_refl _) (hm.begins hbegun), fun _ _ _ => hpast⟩
  · rw [sweptRuns_step]
    refine List.pairwise_append.mpr ⟨h.apart, ?_, fun r' hr' r hr => ?_⟩
    · cases (s.deed? a).bind (Deed.swept? id) with
      | none => exact List.Pairwise.nil
      | some r => exact List.pairwise_singleton _ r
    · exact (h.swept ha (Option.mem_toList.mp hr)).2 r' hr'

end

end Engine

namespace Course

variable {codec : Codec} {limit : Nat} {quiet : Engine → Prop} {before trace : Trace}
  {s s' : Engine}

theorem parted (id : String) (h : Course Phase.IsArrival quiet s trace s')
    (hs : s.Traced limit before) (hg : s.Guarded) (hparted : s.Parted id before) :
    s'.Parted id (before ++ trace) := by
  induction h with
  | refl => rwa [List.append_nil]
  | act hcourse hgoing hturn _ ih =>
    have htraced := hcourse.traced (fun _ hp => hp) hs
    obtain ⟨m, hm, hbecomes⟩ := Engine.step_moves htraced.orderly hgoing
    rw [← List.append_assoc]
    exact ih.step htraced (hcourse.guarded (fun _ hp => hp) hs hg) hgoing hm hbecomes
  | pass _ _ hlater _ ih =>
    refine ⟨fun r hr => ?_, fun b hb => ?_, ih.apart⟩
    · rw [Engine.waitUntil_clock hlater]
      exact (ih.past r hr).later hlater
    · obtain ⟨since, htimed, hbefore⟩ := ih.going b hb
      rw [Engine.waitUntil_clock hlater]
      exact ⟨since, htimed.pass hlater, hbefore⟩
  | arrive _ hphase t ih =>
    refine ⟨ih.past, fun b hb => ?_, ih.apart⟩
    rcases List.mem_append.mp hb with hb | hb
    · exact ih.going b hb
    · obtain rfl := List.mem_singleton.mp hb
      obtain ⟨hrun, _, hnone⟩ := hphase.idle
      exact ⟨_, .arrival hrun, fun f hf => by cases hnone.symm.trans hf⟩

/-- **At most one sweep is in flight.**  Let requests, runs by hand, sweeps and rows of
sweeps go on in any order, and let time pass at any point.  Then at every moment at most one
sweep is between listing the flows and its end, and the guard is held just as long as one
is; a sweep that finds the guard held comes to nothing, and the guard is free when a sweep
in flight has ended in whatever way.  Hence at no moment two runs of sweeps of the same flow
are going on, and of two that put their records into the history of a flow one ended before
the other began. -/
theorem one_sweep {world : Surroundings} (hclock : inCalendar world.clock.micros = true)
    {interpret : Interpreter} (hi : interpret.IsTimely) {store : Store}
    (hstore : store = .memory (.empty limit) ∨ store = .table (.empty codec limit))
    (h : Course Phase.IsArrival quiet (.start world store interpret) trace s) :
    (∀ a ∈ s.activities, ∀ b ∈ s.activities, a.phase.holdsGuard = true →
      b.phase.holdsGuard = true → b = a) ∧
    (s.guard = true ↔ ∃ a ∈ s.activities, a.phase.holdsGuard = true) ∧
    (∀ a ∈ s.activities, a.phase.seeksGuard = true → s.guard = true → s.Skips a) ∧
    (∀ a ∈ s.activities, a.phase.holdsGuard = true → (s.step a).isGoing a.id = false →
      (s.step a).guard = false) ∧
    (∀ a ∈ s.activities, ∀ b ∈ s.activities, ∀ f g, a.phase.due? = some f → b.phase.due? = some g →
      f.id = g.id → b = a) ∧
    ∀ id, (trace.sweptRuns id).Pairwise RunRecord.Precedes := by
  have hstart := Engine.start_traced hclock (Store.holds_empty hstore) hi
  have htraced := h.traced (fun _ hp => hp) hstart
  have hguarded := h.guarded (fun _ hp => hp) hstart (Engine.start_guarded _ _ _)
  have hheld := h.held (fun _ hp => hp) hstart (Engine.start_held _ _ _)
  have hunique {a b : Activity} (ha : a ∈ s.activities) (hb : b ∈ s.activities)
      (hid : b.id = a.id) : b = a :=
    htraced.orderly.unique ha hb hid
  refine ⟨fun a ha b hb hholds hholds' => hunique ha hb (hguarded.single a ha b hb hholds hholds'),
    ⟨hheld, fun ⟨a, ha, hholds⟩ => ?_⟩, fun a _ hseeks hguard =>
      Engine.skips_of_guard hseeks hguard,
    fun a ha hholds hover => ?_,
    fun a ha b hb f g hf hg hid => hunique ha hb (hguarded.apart a ha b hb f g hf hg hid),
      fun id => ?_⟩
  · cases hguard : s.guard with
    | true => rfl
    | false => cases (hguarded.free hguard a ha).1.symm.trans hholds
  · exact (hheld.step htraced.orderly ha).over htraced.orderly hguarded ha hholds hover
  · have hparted := h.parted id hstart (Engine.start_guarded _ _ _) (Engine.start_parted id _ _ _)
    exact hparted.apart

/-- Two sweeps at once: while the first one runs a due flow, the second one finds the guard held. -/
theorem one_sweep_twoAtOnce :
    let flow : Flow := ⟨"a", "* * * * *", true, []⟩
    let clock : Instant := ⟨63000000000000000⟩
    let start : Engine := .start (.start clock (fun _ _ => ⟨0, .ok default⟩) fun _ => "run")
      (.memory (.empty (2 : Nat))) (interpreter default)
    let begun := ((start.spawn (.time clock) (.request (.create flow))).spawn (.time clock)
      (.sweep none .none false)).spawn (.time clock) (.sweep none .none false)
    let s := begun.runFor [0, 1, 2] 3
    (∃ trace, Course Phase.IsArrival Engine.AllWait start trace s) ∧ ∃ a b c,
      a ∈ s.activities ∧ a.phase.seeksGuard = true ∧ s.Skips a ∧
      b ∈ s.activities ∧ b.phase.holdsGuard = true ∧ s.guard = true ∧
      c ∈ s.activities ∧ c.phase.due?.map (·.id) = some "a" := by
  intro flow clock start begun s
  have hcreate : (Operation.create flow).WellFormed :=
    ⟨by decide, fun _ h => (by cases h), by decide +kernel⟩
  have horderly : start.IsOrderly := ⟨List.nodup_nil, fun _ hb => by cases hb⟩
  have hend : s.clock.micros < calendarMicros := by decide +kernel
  obtain ⟨trace, hrun⟩ := Engine.runFor_course Phase.IsArrival
    (((horderly.spawn _ _).spawn _ _).spawn _ _) (by decide) [0, 1, 2] 3 hend
  have hbegun : Course Phase.IsArrival Engine.AllWait start [] begun :=
    ((Course.refl.arrive (.request hcreate) clock).arrive (.sweep none .none) clock).arrive
      (.sweep none .none) clock
  have hcourse := hbegun.trans hrun
  obtain ⟨_, hguard, hskips, _⟩ := one_sweep (by decide) (interpreter_isTimely default)
    (Or.inl (b := _ = Store.table (.empty default 2)) rfl) hcourse
  have hseeks : s.activities.any (·.phase.seeksGuard) = true := by decide +kernel
  have hholds : s.activities.any (·.phase.holdsGuard) = true := by decide +kernel
  have hdue : s.activities.any (·.phase.due?.map (·.id) == some "a") = true := by decide +kernel
  obtain ⟨a, ha, ha'⟩ := List.any_eq_true.mp hseeks
  obtain ⟨b, hb, hb'⟩ := List.any_eq_true.mp hholds
  obtain ⟨c, hc, hc'⟩ := List.any_eq_true.mp hdue
  have hheld := hguard.mpr ⟨b, hb, hb'⟩
  exact ⟨⟨_, hcourse⟩, a, b, c, ha, ha', hskips a ha ha' hheld, hb, hb', hheld, hc,
    beq_iff_eq.mp hc'⟩

end Course

end Cadence
