/-
A sweep on its own.

A sweep begins where nothing else goes on, and nothing arrives until it is over.  It lists
the flows, its runs go on in any order, and each of them puts in the record of its own flow.

* `Course.first`, `Course.idle` — where nothing arrives, the first thing that happens is the
  next step of an activity that is going on, and nothing happens if there is none;
* `Course.store_run` — a store after a course is what the requests of its trace make of it;
* `Store.Judges` — whether the flows that a store lists can be judged;
* `Engine.Alone` — the invariant: nobody but the sweep and its runs goes on, and only the
  runs put anything in, each of them one record;
* `Engine.Conducts.records`, `Engine.Conducts.puts` — which flows leave a record, and that
  these are all that is put in;
* `Engine.HasSwept`, `Engine.HasFailed` — what the sweep comes to;
* `Course.lone_sweep` — it runs just the due flows, or it fails and changes nothing.
-/
import Mathlib.Data.List.Perm.Basic
import Cadence.Proofs.Scheduler.Coverage
import Cadence.Proofs.Scheduler.NoLostUpdate
import Cadence.Proofs.Scheduler.OneSweep
import Cadence.Proofs.Scheduler.Termination
import Cadence.Proofs.Store.Alike

namespace Cadence

open Calendar

/-! ### Courses in which nothing arrives -/

theorem Phase.isArrival_of_false (phase : Phase) (h : False) : phase.IsArrival := h.elim

/-- Only time has passed. -/
structure Engine.Waited (s s' : Engine) : Prop where
  activities : s'.activities = s.activities
  store : s'.store = s.store
  guard : s'.guard = s.guard
  endings : s'.endings = s.endings

namespace Course

variable {quiet : Engine → Prop} {s s' : Engine} {trace : Trace} {a : Activity}

/-- Where nothing arrives, either time passes only, or the first thing that happens is the
next step of an activity that is going on. -/
theorem first (h : Course (fun _ => False) quiet s trace s') :
    trace = [] ∧ s.Waited s' ∨ ∃ u a rest, a ∈ u.activities ∧ s.Waited u ∧
      Course (fun _ => False) quiet s [] u ∧
      Course (fun _ => False) quiet u (u.deed? a).toList (u.step a) ∧
      trace = (u.deed? a).toList ++ rest ∧
      Course (fun _ => False) quiet (u.step a) rest s' := by
  induction h with
  | refl => exact Or.inl ⟨rfl, rfl, rfl, rfl, rfl⟩
  | @act trace s' hcourse b t hgoing hturn htime ih =>
    rcases ih with ⟨rfl, hwaited⟩ | ⟨u, a, rest, ha, hwaited, hbefore, hact, rfl, hafter⟩
    · exact Or.inr ⟨s', b, [], hgoing, hwaited, hcourse, Course.refl.act hgoing hturn htime,
        (List.append_nil _).symm, .refl⟩
    · refine Or.inr ⟨u, a, _, ha, hwaited, hbefore, hact, List.append_assoc _ _ _,
        hafter.act hgoing hturn htime⟩
  | pass _ hquiet hlater hcalendar ih =>
    rcases ih with ⟨rfl, hwaited⟩ | ⟨u, a, rest, ha, hwaited, hbefore, hact, htrace, hafter⟩
    · exact Or.inl ⟨rfl, hwaited.activities, hwaited.store, hwaited.guard, hwaited.endings⟩
    · exact Or.inr ⟨u, a, rest, ha, hwaited, hbefore, hact, htrace,
        hafter.pass hquiet hlater hcalendar⟩
  | arrive _ harrives _ _ => exact harrives.elim

/-- Where nothing arrives and nothing goes on, only time passes. -/
theorem idle (h : Course (fun _ => False) quiet s trace s') (hidle : s.activities = []) :
    trace = [] ∧ s.Waited s' := by
  rcases h.first with hwaited | ⟨u, a, rest, ha, hwaited, _⟩
  · exact hwaited
  · rw [hwaited.activities, hidle] at ha
    cases ha

/-- Where nothing arrives and one activity goes on alone, it does its next thing before it
is over. -/
theorem first_alone (h : Course (fun _ => False) quiet s trace s') (ha : s.activities = [a])
    (hover : s'.isGoing a.id = false) : ∃ u rest, u.activities = [a] ∧ s.Waited u ∧
      Course (fun _ => False) quiet s [] u ∧
      Course (fun _ => False) quiet u (u.deed? a).toList (u.step a) ∧
      trace = (u.deed? a).toList ++ rest ∧ Course (fun _ => False) quiet (u.step a) rest s' := by
  rcases h.first with ⟨_, hwaited⟩ | ⟨u, b, rest, hb, hwaited, hwait, hact, htrace, hafter⟩
  · have hgoing : a ∈ s'.activities := hwaited.activities.trans ha ▸ List.mem_singleton_self a
    exact absurd (beq_self_eq_true a.id) (List.any_eq_false.mp hover a hgoing)
  · have hgoing := hwaited.activities.trans ha
    obtain rfl := List.mem_singleton.mp (hgoing ▸ hb)
    exact ⟨u, rest, hgoing, hwaited, hwait, hact, htrace, hafter⟩

end Course

/-! ### What the requests of a trace make of a store -/

/-- The requests of a trace. -/
def Trace.requests (trace : Trace) : List (Moment × Operation) :=
  trace.map fun d => (d.entry.now, d.entry.operation)

theorem Trace.requests_append (trace trace' : Trace) :
    (trace ++ trace' : Trace).requests = trace.requests ++ trace'.requests := List.map_append

namespace Course

variable {arrives : Phase → Prop} {quiet : Engine → Prop} {limit : Nat}
  {before trace : Trace} {s s' : Engine}

/-- **A store after a course is what the requests of its trace make of it.** -/
theorem store_run (harrives : ∀ p, arrives p → p.IsArrival) (h : Course arrives quiet s trace s')
    (hs : s.Traced limit before) : s.store.run trace.requests = (trace.journal, s'.store) := by
  induction h with
  | refl => rfl
  | @act trace s' hcourse a t hgoing _ _ ih =>
    obtain ⟨m, _, hbecomes⟩ := Engine.step_moves (hcourse.traced harrives hs).orderly hgoing
    rw [hbecomes.store]
    cases hrequest : a.phase.request? with
    | none =>
      rw [Engine.deed?_none hrequest, Engine.storeAfter_none hrequest, Option.toList_none,
        List.append_nil]
      exact ih
    | some op =>
      rw [Engine.deed?_some hrequest, Engine.storeAfter_some hrequest,
        Trace.requests_append, Store.run_append, ih, Trace.journal_append]
      rfl
  | pass _ _ _ _ ih => exact ih
  | arrive _ _ _ ih => exact ih

theorem clock_le (harrives : ∀ p, arrives p → p.IsArrival) (h : Course arrives quiet s trace s')
    (hs : s.Traced limit before) : s.clock ≤ s'.clock := by
  induction h with
  | refl => exact Int.le_refl _
  | act hcourse hgoing _ _ ih =>
    obtain ⟨m, _, hbecomes⟩ := Engine.step_moves (hcourse.traced harrives hs).orderly hgoing
    exact hbecomes.clock ▸ ih
  | @pass _ u _ t _ _ _ ih => exact Int.le_trans ih (u.clock_le_waitUntil t)
  | arrive _ _ _ ih => exact ih

theorem requests_wellFormed (harrives : ∀ p, arrives p → p.IsArrival)
    (h : Course arrives quiet s trace s') (hs : s.Traced limit before) :
    Store.AreWellFormed trace.requests := by
  induction h with
  | refl => exact fun _ hq => by cases hq
  | @act trace s' hcourse a t hgoing _ _ ih =>
    have htraced := hcourse.traced harrives hs
    intro q hq
    rw [Trace.requests_append] at hq
    rcases List.mem_append.mp hq with hq | hq
    · exact ih q hq
    · obtain ⟨d, hd, rfl⟩ := List.mem_map.mp hq
      obtain ⟨op, hop, rfl⟩ := Option.map_eq_some_iff.mp (Option.mem_toList.mp hd)
      exact ⟨Instant.toMoment_wellFormed htraced.clock, (htraced.going a hgoing).wellFormed hop⟩
  | pass _ _ _ _ ih => exact ih
  | arrive _ _ _ ih => exact ih

end Course

/-! ### How a sweep begins -/

/-- Whether the flows that a store lists can be judged by a sweep that goes by a moment: no
fault keeps them from being listed, the moment is an instant, and so is the end of the
latest run of each scheduled flow. -/
structure Store.Judges (store : Store) (outages : Outages) (now : Option Moment)
    (c : Instant) (fs : List StoredFlow) (u : Instant) : Prop where
  listed : outages.list = false
  answer : (store.apply c.toMoment .all).1 = .ok (.flows fs)
  now : (now.getD c.toMoment).toInstant = .ok u
  references : ∀ f ∈ fs, f.IsScheduled → ∃ a, Cron.reference f.lastRunAt u = .ok a

namespace Engine

variable {limit : Nat} {trace : Trace} {s u : Engine} {a : Activity} {now : Option Moment}
  {outages : Outages} {spawned : Bool} {due : List StoredFlow}

theorem Traced.dueFlows?_some (hs : s.Traced limit trace) (h : s.dueFlows? now outages = some due) :
    ∃ fs u, s.store.Judges outages now s.clock fs u ∧ (fs.map (·.id)).Nodup ∧ due.Sublist fs ∧
      ∀ f, f ∈ due ↔ f ∈ fs ∧ f.IsDueAt u := by
  unfold dueFlows? at h
  rw [Option.ite_none_left_eq_some] at h
  obtain ⟨hlist, h⟩ := h
  obtain ⟨ans, hans, h⟩ := Option.bind_eq_some_iff.mp h
  obtain ⟨u, hu, hdue⟩ := Option.bind_eq_some_iff.mp h
  have hanswer := toOption_eq_some.mp hans
  have hjudged := toOption_eq_some.mp hdue
  refine ⟨ans.flowList, u, ⟨Bool.eq_false_iff.mpr hlist, ?_, toOption_eq_some.mp hu,
    judgeAll_ok.mp ⟨due, hjudged⟩⟩,
    (hs.listed hanswer).2.1, judgeAll_sublist hjudged, fun f => hs.mem_due hanswer hjudged⟩
  rw [← (hs.listed hanswer).1]
  exact hanswer

theorem dueFlows?_none (h : s.dueFlows? now outages = none) :
    ¬ ∃ fs u, s.store.Judges outages now s.clock fs u := by
  rintro ⟨fs, u, hjudges⟩
  obtain ⟨due, hdue⟩ := judgeAll_ok.mpr hjudges.references
  cases h.symm.trans (dueFlows?_ok hjudges.listed hjudges.answer hjudges.now hdue)

/-- A sweep that is alone and finds the guard free goes on to list the flows. -/
theorem sweep_alone (ha : s.activities = [a])
    (hphase : a.phase = .sweep now outages spawned) (hguard : s.guard = false) :
    s.deed? a = none ∧ (s.step a).store = s.store ∧
      (s.step a).activities = [{ a with phase := .survey now outages spawned }] := by
  have hstep : s.step a = { s with guard := true }.enter a (.survey now outages spawned) := by
    unfold step
    rw [hphase]
    simp only [sweep]
    rw [hguard]
    rfl
  refine ⟨deed?_none (by rw [hphase]; rfl), ?_, ?_⟩
  · rw [hstep]
    rfl
  · rw [hstep]
    show s.activities.map _ = _
    rw [ha, List.map_singleton, if_pos rfl]

theorem survey_request (hphase : a.phase = .survey now outages spawned) {op : Operation}
    (hop : a.phase.request? = some op) : op = .all := by
  rw [hphase, Phase.request?, Option.ite_none_left_eq_some] at hop
  exact (Option.some_inj.mp hop.2).symm

theorem survey_operation (hphase : a.phase = .survey now outages spawned) :
    ∀ d ∈ (s.deed? a).toList, d.entry.operation = .all := by
  intro d hd
  obtain ⟨op, hop, rfl⟩ := Option.map_eq_some_iff.mp (Option.mem_toList.mp hd)
  exact survey_request hphase hop

theorem survey_store (hs : s.IsOrderly) (ha : a ∈ s.activities)
    (hphase : a.phase = .survey now outages spawned) :
    (s.step a).store = s.store := by
  obtain ⟨m, _, hbecomes⟩ := step_moves hs ha
  rw [hbecomes.store]
  cases hrequest : a.phase.request? with
  | none => exact storeAfter_none hrequest
  | some op =>
    rw [storeAfter_some hrequest, survey_request hphase hrequest]
    exact s.store.apply_all s.now

theorem survey_fails (hs : s.IsOrderly) (ha : s.activities = [a])
    (hphase : a.phase = .survey now outages spawned)
    (hnone : s.dueFlows? now outages = none) : (s.step a).activities = [] := by
  obtain ⟨m, hm, hbecomes⟩ := step_moves hs (ha ▸ List.mem_singleton_self a)
  rcases hm.of_survey hphase with ⟨ending, rfl, _⟩ | ⟨due, hsome, _⟩
  · refine List.eq_nil_iff_forall_not_mem.mpr fun b hb => ?_
    cases hbecomes.going b hb with
    | stays hgoing hother =>
      exact hother (congrArg Activity.id (List.mem_singleton.mp (ha ▸ hgoing)))
    | moves hfate hid => cases hfate
    | begins hbegun hid hturn => cases hbegun
  · cases hsome.symm.trans hnone

end Engine

/-! ### The runs of a sweep on its own -/

/-- A run of a sweep asks for nothing but its record to be put in. -/
theorem Phase.Serves.request? {outages : Outages} {f : StoredFlow} {phase : Phase}
    (h : phase.Serves outages f) {op : Operation} (hop : phase.request? = some op) :
    ∃ r, op = .append r ∧ r.IsOf f .cron := by
  cases phase with
  | append r goal =>
    obtain ⟨_, _, hr⟩ := h
    exact ⟨r, Phase.append_request? hop, hr⟩
  | lose g => cases hop
  | run task goal => cases hop
  | _ => exact h.elim

/-- A run of a sweep that asks for something does not go on afterwards. -/
theorem Phase.Serves.request?_onward {s : Engine} {a : Activity} {m : Move}
    {outages : Outages} {f : StoredFlow} (h : a.phase.Serves outages f) (hm : s.Allows a m)
    {turn : Turn} {phase : Phase} (hfate : m.fate = .onward turn phase) :
    a.phase.request? = none := by
  cases hm.onward hfate with
  | waits hphase => rw [hphase]; rfl
  | asks hphase he => rw [hphase]; rfl
  | finishes hphase hgoal => rw [hphase]; rfl
  | loads hphase hanswer => rw [hphase] at h; exact h.elim
  | sweeps hphase => rw [hphase] at h; exact h.elim
  | surveys hphase hrequest => rw [hphase] at h; exact h.elim
  | goesOn hphase hrow =>
    have hno : ¬ a.phase.Serves outages f :=
      Phase.of_isRow hphase (fun _ h => h) (fun _ h => h) (fun _ h => h) fun h => h
    exact absurd h hno

/-- Whether an activity is a run, or a sweep that waits for its runs. -/
def Phase.isBusy : Phase → Bool
  | .lose _ | .run _ _ | .append _ _ | .collect _ => true
  | _ => false

theorem Phase.Serves.isBusy {outages : Outages} {f : StoredFlow} {phase : Phase}
    (h : phase.Serves outages f) :
    phase.isBusy = true := by
  cases phase with
  | lose g => rfl
  | run task goal => rfl
  | append r goal => rfl
  | _ => exact h.elim

theorem Engine.Begins.busy {s : Engine} {a : Activity} {phase : Phase} (h : s.Begins a phase)
    (hbusy : a.phase.isBusy = true) : False := by
  cases h with
  | run hp => rw [hp] at hbusy; cases hbusy
  | sweep outages hrow =>
    have hidle : a.phase.isBusy = false :=
      Phase.of_isRow hrow (fun _ => rfl) (fun _ => rfl) (fun _ => rfl) rfl
    cases hidle.symm.trans hbusy

/-- Nobody but a sweep and its runs goes on, and they ask for nothing but flows to be listed
and for records of the runs to be put in.  Each run asks for one record of its flow to be
put in, and is over then. -/
structure Engine.Alone (trace : Trace) (s : Engine) (due : List StoredFlow)
    (first i : Nat) : Prop where
  going : ∀ b ∈ s.activities, b.id = i ∨ b.id ∈ runIds first due
  requests : ∀ q ∈ trace.requests, q.2.isSweeping = true
  appends : ∀ d ∈ trace, ∀ r, d.entry.operation = .append r →
    ∃ k f, due[k]? = some f ∧ d.actor.id = first + k ∧ r.flowId = f.id
  gone : ∀ d ∈ trace, ∀ r, d.entry.operation = .append r → ∀ b ∈ s.activities, b.id ≠ d.actor.id
  once : ∀ d ∈ trace, ∀ d' ∈ trace, ∀ r r', d.entry.operation = .append r →
    d'.entry.operation = .append r' → d'.actor.id = d.actor.id → r' = r

namespace Engine

variable {limit : Nat} {before trace : Trace} {s : Engine} {a : Activity}
  {outages : Outages} {due : List StoredFlow} {since : Instant} {first i : Nat}

theorem survey_alone {now : Option Moment} {spawned : Bool} (hs : s.IsOrderly)
    (ha : s.activities = [a]) (hphase : a.phase = .survey now outages spawned)
    (hdue : s.dueFlows? now outages = some due) :
    (s.step a).Alone (s.deed? a).toList due s.count a.id := by
  obtain ⟨m, hm, hbecomes⟩ := step_moves hs (ha ▸ List.mem_singleton_self a)
  have halone : ∀ b ∈ s.activities, b.id = a.id :=
    fun b hb => congrArg Activity.id (List.mem_singleton.mp (ha ▸ hb))
  have hlists {d : Deed} (hd : d ∈ (s.deed? a).toList) {r : RunRecord}
      (hop : d.entry.operation = .append r) : False := by
    cases (survey_operation hphase d hd).symm.trans hop
  refine ⟨fun b hb => ?_, fun q hq => ?_, fun d hd r hop => (hlists hd hop).elim,
    fun d hd r hop => (hlists hd hop).elim, fun d hd _ _ r _ hop => (hlists hd hop).elim⟩
  · cases hbecomes.going b hb with
    | stays hgoing hother => exact Or.inl (halone b hgoing)
    | moves hfate hid => exact Or.inl hid
    | @begins k hbegun hid hturn =>
      rcases hm.of_survey hphase with ⟨ending, rfl, _⟩ | ⟨due', hdue', hruns, _⟩
      · cases hbegun
      · obtain rfl := Option.some_inj.mp (hdue'.symm.trans hdue)
        rw [hruns, List.getElem?_map] at hbegun
        obtain ⟨f, hf, _⟩ := Option.map_eq_some_iff.mp hbegun
        exact Or.inr (mem_runIds.mpr ⟨k, f, hf, hid⟩)
  · obtain ⟨d, hd, rfl⟩ := List.mem_map.mp hq
    rw [survey_operation hphase d hd]
    rfl

theorem Conducts.phase (h : s.Conducts trace outages due since first i) (hs : s.IsOrderly)
    (hacc : s.Accounts trace) (ha : a ∈ s.activities)
    (hid : a.id = i ∨ a.id ∈ runIds first due) :
    a.phase = .collect (runIds first due) ∨
      ∃ k f, due[k]? = some f ∧ a.id = first + k ∧ a.phase.Serves outages f := by
  have hgone {e : Ended} {j : Nat} (hended : s.ended? j = some e) (hj : a.id = j) : False :=
    List.any_eq_false.mp (hacc.isGoing hended) a ha (beq_iff_eq.mpr hj)
  rcases hid with hid | hrun
  · cases h.collects with
    | waiting hb hbid hturn hphase => exact Or.inl (hs.unique hb ha (hid.trans hbid.symm) ▸ hphase)
    | collected hended hending hall => exact (hgone hended hid).elim
  · obtain ⟨k, f, hf, hid⟩ := mem_runIds.mp hrun
    cases h.serves k f hf with
    | going hb hbid hphase htimed =>
      exact Or.inr ⟨k, f, hf, hid, hs.unique hb ha (hid.trans hbid.symm) ▸ hphase⟩
    | recorded hended => exact (hgone hended hid).elim
    | lost hended => exact (hgone hended hid).elim

/-- **A step of a sweep on its own, or of one of its runs, leaves it on its own.** -/
theorem Alone.step (h : s.Alone trace due first i) (hs : s.IsOrderly) (hacc : s.Accounts before)
    (hconducts : s.Conducts before outages due since first i) (ha : a ∈ s.activities) :
    (s.step a).Alone (trace ++ (s.deed? a).toList) due first i := by
  obtain ⟨m, hm, hbecomes⟩ := step_moves hs ha
  have hid := h.going a ha
  have hphase := hconducts.phase hs hacc ha hid
  have hactor {d : Deed} (hd : d ∈ (s.deed? a).toList) : d.actor = a := by
    obtain ⟨op, hop, rfl⟩ := Option.map_eq_some_iff.mp (Option.mem_toList.mp hd)
    rfl
  -- what is asked for is the record of a due flow to be put in
  have hdeed : ∀ d ∈ (s.deed? a).toList, ∃ k f r, due[k]? = some f ∧ a.id = first + k ∧
      r.flowId = f.id ∧
      d.entry.operation = .append r ∧ ∀ turn phase, m.fate ≠ .onward turn phase := by
    intro d hd
    obtain ⟨op, hop, rfl⟩ := Option.map_eq_some_iff.mp (Option.mem_toList.mp hd)
    rcases hphase with hcollect | ⟨k, f, hf, hk, hserves⟩
    · rw [hcollect] at hop
      cases hop
    · obtain ⟨r, rfl, hr⟩ := hserves.request? hop
      refine ⟨k, f, r, hf, hk, hr.flowId, rfl, fun turn phase hfate => ?_⟩
      cases hop.symm.trans (hserves.request?_onward hm hfate)
  -- neither a sweep that waits nor a run begins others
  have hgoing : ∀ b ∈ (s.step a).activities, b ∈ s.activities ∧ b.id ≠ a.id ∨
      b.id = a.id ∧ ∃ turn phase, m.fate = .onward turn phase := by
    intro b hb
    cases hbecomes.going b hb with
    | stays hgoing hother => exact Or.inl ⟨hgoing, hother⟩
    | moves hfate hbid => exact Or.inr ⟨hbid, _, _, hfate⟩
    | begins hbegun hid hturn =>
      have hbegins := hm.begins hbegun
      rcases hphase with hcollect | ⟨_, f, _, _, hserves⟩
      · exact (hbegins.busy (by rw [hcollect]; rfl)).elim
      · exact (hbegins.busy hserves.isBusy).elim
  refine ⟨fun b hb => ?_, fun q hq => ?_, fun d hd r hop => ?_, fun d hd r hop b hb => ?_,
    fun d hd d' hd' r r' hop hop' hsame => ?_⟩
  · rcases hgoing b hb with ⟨hb, _⟩ | ⟨hbid, _⟩
    · exact h.going b hb
    · exact hbid ▸ hid
  · rw [Trace.requests_append] at hq
    rcases List.mem_append.mp hq with hq | hq
    · exact h.requests q hq
    · obtain ⟨d, hd, rfl⟩ := List.mem_map.mp hq
      obtain ⟨_, _, r, _, _, _, hop, _⟩ := hdeed d hd
      rw [hop]
      rfl
  · rcases List.mem_append.mp hd with hd | hd
    · exact h.appends d hd r hop
    · obtain ⟨k, f, r', hf, hk, hflow, hop', _⟩ := hdeed d hd
      obtain rfl := Operation.append.inj (hop'.symm.trans hop)
      exact ⟨k, f, hf, (congrArg Activity.id (hactor hd)).trans hk, hflow⟩
  · rcases List.mem_append.mp hd with hd | hd
    · rcases hgoing b hb with ⟨hb, _⟩ | ⟨hbid, _⟩
      · exact h.gone d hd r hop b hb
      · exact hbid ▸ h.gone d hd r hop a ha
    · obtain ⟨_, _, _, _, _, _, _, hends⟩ := hdeed d hd
      rcases hgoing b hb with ⟨_, hother⟩ | ⟨_, turn, phase, hfate⟩
      · rwa [hactor hd]
      · exact absurd hfate (hends turn phase)
  · -- who asks now has asked for nothing before
    rcases List.mem_append.mp hd with hd | hd
    · rcases List.mem_append.mp hd' with hd' | hd'
      · exact h.once d hd d' hd' r r' hop hop' hsame
      · exact absurd ((congrArg Activity.id (hactor hd')).symm.trans hsame) (h.gone d hd r hop a ha)
    · rcases List.mem_append.mp hd' with hd' | hd'
      · exact absurd ((congrArg Activity.id (hactor hd)).symm.trans hsame.symm)
          (h.gone d' hd' r' hop' a ha)
      · have heq : d' = d := Option.some_inj.mp
          ((Option.mem_toList.mp hd').symm.trans (Option.mem_toList.mp hd))
        exact Operation.append.inj (hop'.symm.trans (heq ▸ hop))

end Engine

theorem Course.alone {quiet : Engine → Prop} {limit : Nat} {before own trace : Trace}
    {s s' : Engine} (h : Course (fun _ => False) quiet s trace s')
    (hs : s.Traced limit before) (hacc : s.Accounts before) {outages : Outages}
    {due : List StoredFlow} {since : Instant} {first i : Nat}
    (hconducts : s.Conducts before outages due since first i)
    (halone : s.Alone own due first i) :
    s'.Alone (own ++ trace) due first i := by
  induction h with
  | refl => rwa [List.append_nil]
  | act hcourse hgoing _ _ ih =>
    have htraced := hcourse.traced Phase.isArrival_of_false hs
    have haccounts := hcourse.accounts Phase.isArrival_of_false hs hacc
    rw [← List.append_assoc]
    exact ih.step htraced.orderly haccounts
      (hcourse.conducts Phase.isArrival_of_false hs hacc hconducts) hgoing
  | pass _ _ _ _ ih => exact ⟨ih.going, ih.requests, ih.appends, ih.gone, ih.once⟩
  | arrive _ harrives _ _ => exact harrives.elim

/-! ### What runs put in -/

/-- A store can write down every record of a flow that it is asked to put in. -/
def Trace.IsWritten (trace : Trace) (store : Store) (id : String) : Prop :=
  ∀ d ∈ trace, ∀ r, d.entry.operation = .append r → r.flowId = id → store.writes r = true

/-- Where flows differ in their ids, all that is asked for a flow is one record. -/
theorem Engine.Alone.isWritten_iff {trace : Trace} {s : Engine} {due : List StoredFlow}
    {first i : Nat} (h : s.Alone trace due first i) (hdistinct : (due.map (·.id)).Nodup)
    {d : Deed} (hd : d ∈ trace) {r : RunRecord} (hop : d.entry.operation = .append r)
    (store : Store) :
    trace.IsWritten store r.flowId ↔ store.writes r = true := by
  refine ⟨fun hwritten => hwritten d hd r hop rfl, fun hwrites d' hd' r' hop' hid => ?_⟩
  obtain ⟨k, f, hf, hk, hflow⟩ := h.appends d hd r hop
  obtain ⟨k', f', hf', hk', hflow'⟩ := h.appends d' hd' r' hop'
  have hsome : (due.map (·.id))[k]? = some r.flowId := by rw [List.getElem?_map, hf, hflow]; rfl
  have hsome' : (due.map (·.id))[k']? = some r.flowId := by
    rw [List.getElem?_map, hf', ← hid, hflow']; rfl
  obtain rfl : k = k' :=
    (List.getElem?_inj (List.getElem?_eq_some_iff.mp hsome).1 hdistinct).mp
      (hsome.trans hsome'.symm)
  rwa [h.once d hd d' hd' r r' hop hop' (hk'.trans hk.symm)]

theorem flatMap_ite_eq {α : Type} {keys : List Nat} (hnodup : keys.Nodup) {i : Nat}
    (hi : i ∈ keys) (xs : List α) :
    keys.flatMap (fun j => if i = j then xs else []) = xs := by
  obtain ⟨l, l', rfl⟩ := List.append_of_mem hi
  obtain ⟨_, hl', hdisjoint⟩ := List.nodup_append.mp hnodup
  have hbefore : l.flatMap (fun j => if i = j then xs else []) = [] :=
    List.flatMap_eq_nil_iff.mpr fun j hj => if_neg fun heq =>
      hdisjoint j hj i List.mem_cons_self heq.symm
  have hafter : l'.flatMap (fun j => if i = j then xs else []) = [] := by
    refine List.flatMap_eq_nil_iff.mpr fun j hj => if_neg ?_
    rintro rfl
    exact (List.nodup_cons.mp hl').1 hj
  rw [List.flatMap_append, List.flatMap_cons, hbefore, hafter, if_pos rfl, List.append_nil]
  rfl

/-- Where each record is put in by one of given activities, all records are what these put
in one by one. -/
theorem Trace.puts_perm {runs : List Nat} (hnodup : runs.Nodup) (trace : Trace)
    (hby : ∀ d ∈ trace, ∀ r, d.entry.put? = some r → d.actor.id ∈ runs) :
    trace.journal.puts.Perm (runs.flatMap trace.putBy) := by
  induction trace with
  | nil =>
    rw [show runs.flatMap (Trace.putBy []) = []
      from List.flatMap_eq_nil_iff.mpr fun _ _ => rfl]; rfl
  | cons d rest ih =>
    have hrest := ih fun d' hd' => hby d' (List.mem_cons_of_mem d hd')
    have hcons (j : Nat) : Trace.putBy (d :: rest) j =
        (if d.actor.id = j then d.entry.put?.toList else []) ++ Trace.putBy rest j := by
      rw [Trace.putBy, List.filterMap_cons]
      by_cases hj : d.actor.id = j
      · rw [if_pos hj, if_pos hj]
        cases d.entry.put? <;> rfl
      · rw [if_neg hj, if_neg hj]
        rfl
    -- whoever makes the first request is one of the activities, and just one of them
    have hfirst : runs.flatMap (fun j => if d.actor.id = j then d.entry.put?.toList else []) =
        d.entry.put?.toList := by
      cases hput : d.entry.put? with
      | none => exact List.flatMap_eq_nil_iff.mpr fun j _ => by split <;> rfl
      | some r => exact flatMap_ite_eq hnodup (hby d List.mem_cons_self r hput) [r]
    have hputs : Journal.puts (Trace.journal (d :: rest)) = d.entry.put?.toList ++
        Journal.puts (Trace.journal rest) := by
      rw [Trace.journal, List.map_cons, Journal.puts, List.filterMap_cons]
      cases d.entry.put? <;> rfl
    have hsplit := List.flatMap_append_perm runs
      (fun j => if d.actor.id = j then d.entry.put?.toList else [])
      (Trace.putBy rest)
    rw [hfirst] at hsplit
    rw [hputs, funext hcons]
    exact (hrest.append_left _).trans hsplit

theorem forall₂_filterMap_range {α β : Type} {R : α → β → Prop} {p : α → Bool} {xs : List α}
    {g : Nat → Option β}
    (h : ∀ k x, xs[k]? = some x → p x = true ∧ (∃ y, g k = some y ∧ R x y) ∨
      p x = false ∧ g k = none) :
    List.Forall₂ R (xs.filter p) ((List.range xs.length).filterMap g) := by
  induction xs generalizing g with
  | nil => exact .nil
  | cons x xs ih =>
    have hrest := ih (g := g ∘ Nat.succ) fun k y hy => h (k + 1) y hy
    rw [List.length_cons, List.range_succ_eq_map, List.filterMap_cons, List.filterMap_map,
      List.filter_cons]
    rcases h 0 x rfl with ⟨hp, y, hy, hR⟩ | ⟨hp, hnone⟩
    · rw [if_pos hp, hy]
      exact .cons hR hrest
    · rw [if_neg (Bool.eq_false_iff.mp hp), hnone]
      exact hrest

/-! ### What becomes of the runs -/

/-- Whether no fault keeps the run of a flow from leaving its record, given of which flows
the store takes it. -/
def Outages.spares (outages : Outages) (takes : StoredFlow → Bool) (f : StoredFlow) : Bool :=
  takes f && !outages.runs.contains f.id && !outages.appends.contains f.id

theorem Outages.spares_iff {outages : Outages} {takes : StoredFlow → Bool} {f : StoredFlow} :
    outages.spares takes f = true ↔ takes f = true ∧ f.id ∉ outages.runs ∧
      f.id ∉ outages.appends := by
  simp only [spares, Bool.and_eq_true, Bool.not_eq_true', ← Bool.not_eq_true,
    List.contains_iff_mem, and_assoc]

namespace Engine

theorem recordOf?_record {s : Engine} {i : Nat} {e : Ended} {r : RunRecord}
    (hended : s.ended? i = some e) (hending : e.ending = .record r) :
    s.recordOf? i = some r := by
  unfold recordOf?
  rw [hended]
  obtain ⟨j, ending, time⟩ := e
  obtain rfl : ending = .record r := hending
  rfl

theorem recordOf?_blank {s : Engine} {i : Nat} {e : Ended} (hended : s.ended? i = some e)
    (hblank : e.ending.isBlank = true) : s.recordOf? i = none := by
  unfold recordOf?
  rw [hended]
  obtain ⟨j, ending, time⟩ := e
  cases ending with
  | record r => cases hblank
  | _ => rfl

section

variable {before own : Trace} {s : Engine} {outages : Outages} {due : List StoredFlow}
  {since : Instant} {first i : Nat} {takes : StoredFlow → Bool}
  (hconducts : s.Conducts (before ++ own) outages due since first i)
  (hacc : s.Accounts (before ++ own)) (hover : s.isGoing i = false)
  (hbefore : ∀ d ∈ before, d.actor.id < first)
  (hanswered : ∀ d ∈ own, ∀ r f, d.entry.operation = .append r → f ∈ due → r.flowId = f.id →
    d.entry.isAnswered = takes f)

include hconducts hacc hover hbefore hanswered

/-- **The run of a due flow has put in the record that it ended with, unless a fault kept it
from that.** -/
theorem Conducts.outcome {k : Nat} {f : StoredFlow} (hk : due[k]? = some f) :
    outages.spares takes f = true ∧
      (∃ r, s.recordOf? (first + k) = some r ∧ own.putBy (first + k) = [r] ∧ r.IsOf f .cron) ∨
    outages.spares takes f = false ∧ s.recordOf? (first + k) = none ∧
      own.putBy (first + k) = [] := by
  have hf := List.mem_of_getElem? hk
  have hown : Trace.putBy (before ++ own) (first + k) = own.putBy (first + k) := by
    rw [Trace.putBy_append, Trace.putBy_eq_nil fun d hd => by have := hbefore d hd; omega]
    rfl
  cases hconducts.serves k f hk with
  | going hb hid hphase htimed =>
    obtain ⟨e, hended⟩ := (hconducts.over hover).2 k f hk
    exact absurd (beq_iff_eq.mpr hid) (List.any_eq_false.mp (hacc.isGoing hended) _ hb)
  | @recorded e r b d hended hending hput hr hspans hsince hnow hruns happends =>
    rw [hown] at hput
    -- the store took the record
    obtain ⟨d, hd, hputs⟩ :=
      List.mem_filterMap.mp (hput ▸ List.mem_singleton_self r : r ∈ own.putBy (first + k))
    obtain ⟨hop, htaken⟩ := Entry.put?_some.mp (Option.ite_none_right_eq_some.mp hputs).2
    have htakes := (hanswered d hd r f hop hf hr.flowId).symm.trans htaken
    exact Or.inl ⟨Outages.spares_iff.mpr ⟨htakes, hruns, happends⟩, r,
      recordOf?_record hended hending, hput, hr⟩
  | lost hended hblank hput hloses =>
    refine Or.inr ⟨Bool.eq_false_iff.mpr fun hspares => ?_,
      recordOf?_blank hended hblank, hown ▸ hput⟩
    obtain ⟨htakes, hruns, happends⟩ := Outages.spares_iff.mp hspares
    rcases hloses with hlost | hlost | ⟨d, hd, hactor, hrefused, r, hop, hr⟩
    · exact hruns hlost
    · exact happends hlost
    · rcases List.mem_append.mp hd with hd | hd
      · have := hbefore d hd
        omega
      · cases hrefused.symm.trans ((hanswered d hd r f hop hf hr.flowId).trans htakes)

/-- The records of a sweep are those of the due flows that no fault befell, in their order. -/
theorem Conducts.records :
    List.Forall₂ (fun f r => r.IsOf f .cron) (due.filter (outages.spares takes))
      ((runIds first due).filterMap s.recordOf?) := by
  rw [runIds, List.filterMap_map]
  refine forall₂_filterMap_range fun k f hk => ?_
  rcases hconducts.outcome hacc hover hbefore hanswered hk
    with ⟨hspared, r, hrecord, _, hr⟩ | ⟨hlost, hnone, _⟩
  · exact Or.inl ⟨hspared, r, hrecord, hr⟩
  · exact Or.inr ⟨hlost, hnone⟩

/-- The records of a sweep on its own are all that were put in. -/
theorem Conducts.puts
    (hown : ∀ d ∈ own, ∀ r, d.entry.put? = some r → d.actor.id ∈ runIds first due) :
    own.journal.puts.Perm ((runIds first due).filterMap s.recordOf?) := by
  have hnodup : (runIds first due).Nodup := List.nodup_range.map fun _ _ heq =>
    Nat.add_left_cancel heq
  have hrecords : (runIds first due).filterMap s.recordOf? =
      (runIds first due).flatMap own.putBy := by
    rw [List.filterMap_eq_flatMap_toList]
    refine List.flatMap_congr fun j hj => ?_
    obtain ⟨k, f, hk, rfl⟩ := mem_runIds.mp hj
    rcases hconducts.outcome hacc hover hbefore hanswered hk
      with ⟨_, r, hrecord, hput, _⟩ | ⟨_, hnone, hput⟩
    · rw [hrecord, hput]
      rfl
    · rw [hnone, hput]
      rfl
  rw [hrecords]
  exact Trace.puts_perm hnodup own hown

end

end Engine

/-! ### What a sweep on its own comes to -/

/-- The records of a sweep that ended. -/
def Ending.records : Ending → List RunRecord
  | .swept records => records
  | _ => []

/-- A sweep that goes by an instant has run the due flows among those that a store listed,
except those that a fault befell or whose record the store did not take.  It ends with the
records of just these flows in the order of the list; each of them was put once into the
history of its own flow, nothing is answered otherwise about other flows, and the store
cannot be told from one that takes the records in any order. -/
structure Engine.HasSwept (s : Engine) (i : Nat) (store : Store) (trace : Trace)
    (outages : Outages) (fs : List StoredFlow) (u : Instant) (kept : List StoredFlow)
    (records : List RunRecord) : Prop where
  ended : ∃ e, s.ended? i = some e ∧ e.ending = .swept records
  sublist : kept.Sublist fs
  mem_iff : ∀ f, f ∈ kept ↔ f ∈ fs ∧ f.IsDueAt u ∧
    (store.takes = true ∧ trace.IsWritten store f.id) ∧
    f.id ∉ outages.runs ∧ f.id ∉ outages.appends
  recorded : List.Forall₂ (fun f r => r.IsOf f .cron) kept records
  once : ∀ r ∈ records, trace.journal.putUnder r.flowId = [r]
  others : ∀ id, (∀ f ∈ kept, f.id ≠ id) → ∀ now op, op.AsksFor id →
    (s.store.apply now op).1 = (store.apply now op).1
  anyOrder : ∀ order : List RunRecord, order.Perm records →
    ∀ (now : Moment) (asked : List (Moment × Operation)),
    now.WellFormed → Store.AreWellFormed asked →
      (s.store.run asked).1 = ((store.run (order.map fun r => (now, .append r))).2.run asked).1

/-- A sweep has failed, and has neither run anything nor changed the store. -/
structure Engine.HasFailed (s : Engine) (i : Nat) (store : Store) (trace : Trace) : Prop where
  ended : ∃ e, s.ended? i = some e ∧ ∀ records, e.ending ≠ .swept records
  puts : trace.journal.puts = []
  store : s.store = store

theorem filter_flowId {rs : List RunRecord} (hnodup : (rs.map (·.flowId)).Nodup)
    {r : RunRecord} (hr : r ∈ rs) :
    rs.filter (fun q => q.flowId = r.flowId) = [r] := by
  obtain ⟨l, l', rfl⟩ := List.append_of_mem hr
  rw [List.map_append, List.map_cons] at hnodup
  obtain ⟨_, hl', hdisjoint⟩ := List.nodup_append.mp hnodup
  have hbefore : l.filter (fun q => q.flowId = r.flowId) = [] := by
    refine List.filter_eq_nil_iff.mpr fun q hq heq => ?_
    exact hdisjoint q.flowId (List.mem_map.mpr ⟨q, hq, rfl⟩) r.flowId List.mem_cons_self
      (of_decide_eq_true heq)
  have hafter : l'.filter (fun q => q.flowId = r.flowId) = [] := by
    refine List.filter_eq_nil_iff.mpr fun q hq heq => (List.nodup_cons.mp hl').1 ?_
    exact List.mem_map.mpr ⟨q, hq, of_decide_eq_true heq⟩
  rw [List.filter_append, List.filter_cons, hbefore, hafter, if_pos (decide_eq_true rfl)]
  rfl

theorem flowIds_eq {fs : List StoredFlow} {rs : List RunRecord}
    (h : List.Forall₂ (fun f r => r.IsOf f .cron) fs rs) : rs.map (·.flowId) = fs.map (·.id) := by
  induction h with
  | nil => rfl
  | cons hr _ ih => rw [List.map_cons, List.map_cons, ih, hr.flowId]

theorem Trace.wellFormed_of_puts {trace : Trace} (h : Store.AreWellFormed trace.requests)
    {r : RunRecord} (hr : r ∈ trace.journal.puts) : r.WellFormed := by
  obtain ⟨e, he, hput⟩ := List.mem_filterMap.mp hr
  obtain ⟨d, hd, rfl⟩ := List.mem_map.mp he
  have hwell := (h _ (List.mem_map.mpr ⟨d, hd, rfl⟩)).2
  rwa [(Entry.put?_some.mp hput).1] at hwell

/-- What follows for a store when the records of a sweep are all that its requests put in. -/
theorem Engine.HasSwept.of_perm {s : Engine} {i : Nat} {store : Store} {m : Memory}
    (hholds : store.Holds m) (hsound : m.Sound) {trace : Trace}
    (hrun : store.run trace.requests = (trace.journal, s.store))
    (hwell : Store.AreWellFormed trace.requests)
    (hrequests : ∀ q ∈ trace.requests, q.2.isSweeping = true) {outages : Outages}
    {fs kept : List StoredFlow} {u : Instant} {records : List RunRecord}
    (hended : ∃ e, s.ended? i = some e ∧ e.ending = .swept records)
    (hsublist : kept.Sublist fs)
    (hmem : ∀ f, f ∈ kept ↔ f ∈ fs ∧ f.IsDueAt u ∧
      (store.takes = true ∧ trace.IsWritten store f.id) ∧ f.id ∉ outages.runs ∧
      f.id ∉ outages.appends)
    (hlisted : (fs.map (·.id)).Nodup ∧ ∀ f ∈ fs, m.flows.lookup f.id = some f ∧
      store.Reads f.definition.toJson)
    (hrecords : List.Forall₂ (fun f r => r.IsOf f .cron) kept records)
    (hperm : trace.journal.puts.Perm records) :
    s.HasSwept i store trace outages fs u kept records := by
  have hids := flowIds_eq hrecords
  have hdistinct : (records.map (·.flowId)).Nodup := hids ▸ hlisted.1.sublist (hsublist.map _)
  have hjournal : (store.run trace.requests).1 = trace.journal := congrArg Prod.fst hrun
  have hstore : (store.run trace.requests).2 = s.store := congrArg Prod.snd hrun
  refine ⟨hended, hsublist, hmem, hrecords, fun r hr => ?_, fun id hother now op hop => ?_,
    fun order horder now asked hnow hasked => ?_⟩
  · -- no other record is of the same flow
    have hfilter : (trace.journal.putUnder r.flowId).Perm
        (records.filter fun q => q.flowId = r.flowId) := hperm.filter _
    rw [filter_flowId hdistinct hr] at hfilter
    exact List.perm_singleton.mp hfilter
  · have hnot : id ∉ (store.run trace.requests).1.puts.map (·.flowId) := by
      rw [hjournal, (hperm.map _).mem_iff, hids]
      intro hid
      obtain ⟨f, hf, hid⟩ := List.mem_map.mp hid
      exact hother f hf hid
    rw [← hstore]
    exact hholds.answer_run hsound hwell hrequests hnot hop
  · -- in whatever order the records are put in, the store comes to hold the same
    have hputs : (store.run trace.requests).1.puts.Perm order :=
      hjournal.symm ▸ hperm.trans horder.symm
    have htaken : ∀ r ∈ order, store.Takes m r := by
      intro r hr
      have hput : r ∈ trace.journal.puts := hperm.mem_iff.mpr (horder.mem_iff.mp hr)
      have hmem' : r.flowId ∈ kept.map (·.id) :=
        hids ▸ List.mem_map.mpr ⟨r, horder.mem_iff.mp hr, rfl⟩
      obtain ⟨f, hf, hid⟩ := List.mem_map.mp hmem'
      obtain ⟨_, _, ⟨htakes, hwritten⟩, _⟩ := (hmem f).mp hf
      obtain ⟨e, he, hputs⟩ := List.mem_filterMap.mp hput
      obtain ⟨d, hd, rfl⟩ := List.mem_map.mp he
      refine ⟨Trace.wellFormed_of_puts hwell hput, htakes,
        hwritten d hd r (Entry.put?_some.mp hputs).1 hid.symm, f, ?_⟩
      rw [← hid]
      exact hlisted.2 f (hsublist.mem hf)
    have halike := hholds.alike_of_perm hsound hwell hrequests hputs
      ((horder.map _).nodup_iff.mpr hdistinct) hnow
      htaken
    rw [hstore] at halike
    exact (halike.run hasked).symm

namespace Course

variable {quiet : Engine → Prop} {codec : Codec} {limit : Nat} {before own rest : Trace}
  {s v : Engine} {b : Activity} {now : Option Moment} {outages : Outages} {spawned : Bool}
  {due : List StoredFlow} {since : Instant} {i : Nat}

/-- A sweep that conducts the runs of the due flows on its own has run just these. -/
theorem hasSwept (hs : v.Traced limit before) (hacc : v.Accounts before)
    (h : Course (fun _ => False) quiet v own s) (hdue : v.dueFlows? now outages = some due)
    (hconducts : s.Conducts (before ++ own) outages due since v.count i)
    (halone : s.Alone own due v.count i) (hover : s.isGoing i = false) :
    ∃ fs u kept records, v.store.Judges outages now v.clock fs u ∧
      s.HasSwept i v.store own outages fs u kept records := by
  obtain ⟨fs, u, hjudges, hnodup, hsublist, hmem⟩ := hs.dueFlows?_some hdue
  obtain ⟨m, hholds, hsound, _⟩ := hs.store
  have hlisted := hholds.listed hsound hjudges.answer
  have hrun := h.store_run Phase.isArrival_of_false hs
  have hwell := h.requests_wellFormed Phase.isArrival_of_false hs
  have hacc' := h.accounts Phase.isArrival_of_false hs hacc
  have hdistinct : (due.map (·.id)).Nodup := hnodup.sublist (hsublist.map _)
  classical
  -- the store takes each record that it can write, as it could read these flows when it listed them
  let takes (f : StoredFlow) : Bool := decide (v.store.takes = true ∧ own.IsWritten v.store f.id)
  have hanswered : ∀ d ∈ own, ∀ r f, d.entry.operation = .append r → f ∈ due → r.flowId = f.id →
      d.entry.isAnswered = takes f := by
    intro d hd r f hop hf hid
    obtain ⟨hlookup, hread⟩ := hlisted f (hsublist.mem hf)
    have hentry : d.entry ∈ (v.store.run own.requests).1 := by
      rw [hrun]
      exact List.mem_map.mpr ⟨d, hd, rfl⟩
    rw [hholds.entry_answered hsound hwell halone.requests hentry hop (hid ▸ hlookup) hread,
      Bool.eq_iff_iff,
      Bool.and_eq_true, decide_eq_true_iff, ← hid, halone.isWritten_iff hdistinct hd hop]
  have hput : ∀ d ∈ own, ∀ r, d.entry.put? = some r → d.actor.id ∈ Engine.runIds v.count due := by
    intro d hd r hput
    obtain ⟨k, f, hf, hk, _⟩ := halone.appends d hd r (Entry.put?_some.mp hput).1
    exact Engine.mem_runIds.mpr ⟨k, f, hf, hk⟩
  refine ⟨fs, u, _, _, hjudges,
    .of_perm hholds hsound hrun hwell halone.requests (hconducts.over hover).1
    (List.filter_sublist.trans hsublist) (fun f => ?_) ⟨hnodup, hlisted⟩
    (hconducts.records hacc' hover hacc.actor_lt hanswered)
    (hconducts.puts hacc' hover hacc.actor_lt hanswered hput)⟩
  rw [List.mem_filter, hmem, Outages.spares_iff, and_assoc, decide_eq_true_iff]

/-- **A sweep that is alone when it lists the flows runs the due ones, if they can be
judged, and fails otherwise.** -/
theorem hasSwept_or_hasFailed (hs : v.Traced limit before) (hacc : v.Accounts before)
    (hb : v.activities = [b]) (hphase : b.phase = .survey now outages spawned)
    (hact : Course (fun _ => False) quiet v (v.deed? b).toList (v.step b))
    (hrest : Course (fun _ => False) quiet (v.step b) rest s)
    (hover : s.isGoing b.id = false) :
    (∃ fs u kept records, v.store.Judges outages now v.clock fs u ∧
      s.HasSwept b.id v.store ((v.deed? b).toList ++ rest) outages fs u kept records) ∨
    (¬ ∃ fs u, v.store.Judges outages now v.clock fs u) ∧
      s.HasFailed b.id v.store ((v.deed? b).toList ++ rest) := by
  have htraced := hact.traced Phase.isArrival_of_false hs
  have haccounts := hact.accounts Phase.isArrival_of_false hs hacc
  have hmem : b ∈ v.activities := hb ▸ List.mem_singleton_self b
  rcases Engine.surveyed hs hmem hphase with ⟨due, hdue, hconducts⟩ | ⟨hnone, e, hended, hfails⟩
  · have hconducted := hrest.conducts Phase.isArrival_of_false htraced haccounts hconducts
    rw [List.append_assoc] at hconducted
    have halone := hrest.alone htraced haccounts hconducts
      (Engine.survey_alone hs.orderly hb hphase hdue)
    exact Or.inl (hasSwept hs hacc (hact.trans hrest) hdue hconducted halone hover)
  · obtain ⟨rfl, hwaited⟩ := hrest.idle (Engine.survey_fails hs.orderly hb hphase hnone)
    refine Or.inr ⟨Engine.dueFlows?_none hnone,
      ⟨e, (Engine.ended?_congr hwaited.endings b.id).trans hended, hfails⟩, ?_,
      hwaited.store.trans (Engine.survey_store hs.orderly hmem hphase)⟩
    rw [List.append_nil]
    refine List.filterMap_eq_nil_iff.mpr fun e he => ?_
    obtain ⟨d, hd, rfl⟩ := List.mem_map.mp he
    rw [Entry.put?, Engine.survey_operation hphase d hd]

/-- A sweep that is alone and finds the guard free is alone when it lists the flows, unless
it is not over. -/
theorem listing {a : Activity} {trace : Trace} (hs : v.Traced limit before)
    (hacc : v.Accounts before) (ha : v.activities = [a])
    (hphase : a.phase = .sweep now outages spawned) (hguard : v.guard = false)
    (h : Course (fun _ => False) quiet v trace s) (hover : s.isGoing a.id = false) :
    ∃ u b rest, u.Traced limit before ∧ u.Accounts before ∧ u.activities = [b] ∧ b.id = a.id ∧
      b.phase = .survey now outages spawned ∧ u.store = v.store ∧ v.clock ≤ u.clock ∧
      u.clock ≤ s.clock ∧
      Course (fun _ => False) quiet u (u.deed? b).toList (u.step b) ∧
      Course (fun _ => False) quiet (u.step b) rest s ∧
      trace = (u.deed? b).toList ++ rest := by
  -- first the sweep finds the guard free, and then it lists the flows
  obtain ⟨w, rest, hgoing, hwaited, hwait, hact, rfl, hafter⟩ := h.first_alone ha hover
  obtain ⟨hdeed, hkept, hnext⟩ := Engine.sweep_alone hgoing hphase (hwaited.guard.trans hguard)
  rw [hdeed, Option.toList_none] at hact ⊢
  obtain ⟨u, rest, hgoing', hwaited', hwait', hact', rfl, hafter'⟩ := hafter.first_alone hnext hover
  have hlisting := (hwait.trans hact).trans hwait'
  have hu := hlisting.traced Phase.isArrival_of_false hs
  have huacc := hlisting.accounts Phase.isArrival_of_false hs hacc
  rw [List.append_nil, List.append_nil, List.append_nil] at hu huacc
  exact ⟨u, _, rest, hu, huacc, hgoing', rfl, rfl, (hwaited'.store.trans hkept).trans hwaited.store,
    hlisting.clock_le Phase.isArrival_of_false hs,
    (hact'.trans hafter').clock_le Phase.isArrival_of_false hu, hact', hafter', rfl⟩

/-- **A sweep on its own runs just the due flows.**  Let requests, runs by hand, sweeps and
rows of sweeps have gone on in any order until none of them goes on, and let a sweep begin
then.  By itself the sweep comes to an end, from wherever it has come to while the turns of
its runs came in any order.  When it is over, it has listed the flows at some instant since
it began.  If the flows that the store listed could be judged then, the sweep has run just
the due ones among them that no fault befell and whose records the store took; if not, it
has failed and changed nothing. -/
theorem lone_sweep {world : Surroundings} (hclock : inCalendar world.clock.micros = true)
    {interpret : Interpreter} (hi : interpret.IsTimely) {store : Store}
    (hstore : store = .memory (.empty limit) ∨ store = .table (.empty codec limit))
    {s s' : Engine} {trace : Trace}
    (hbefore : Course Phase.IsArrival quiet (.start world store interpret) before s)
    (hidle : s.activities = []) {quiet' : Engine → Prop} {t : Instant}
    (h : Course (fun _ => False) quiet' (s.spawn (.time t) (.sweep now outages false)) trace s') :
    (∃ fuel, (s'.runFor [s.count] fuel).isGoing s.count = false) ∧
    (s'.isGoing s.count = false → ∃ c, s.clock ≤ c ∧ c ≤ s'.clock ∧
      ((∃ fs u kept records, s.store.Judges outages now c fs u ∧
        s'.HasSwept s.count s.store trace outages fs u kept records) ∨
      (¬ ∃ fs u, s.store.Judges outages now c fs u) ∧ s'.HasFailed s.count s.store trace)) := by
  have hstart := Engine.start_traced hclock (Store.holds_empty hstore) hi
  have hbegun := hbefore.arrive (.sweep now outages) t
  have htraced := hbegun.traced (fun _ hp => hp) hstart
  have hacc := hbegun.accounts (fun _ hp => hp) hstart (Engine.start_accounts _ _ _)
  have halone : (s.spawn (.time t) (.sweep now outages false)).activities =
      [⟨s.count, .time t, s.count, .sweep now outages false⟩] := by
    show s.activities ++ _ = _
    rw [hidle]
    rfl
  refine ⟨?_, fun hover => ?_⟩
  · obtain ⟨fuel, hends⟩ :=
      (h.descends (.of_alone htraced.orderly halone rfl rfl)).runFor_ends [s.count]
    exact ⟨fuel, hends s.count List.mem_cons_self⟩
  · -- nobody holds the guard, as nobody else goes on
    have hfree : s.guard = false := by
      refine Bool.eq_false_iff.mpr fun hguard => ?_
      obtain ⟨b, hb, _⟩ := hbefore.held (fun _ hp => hp) hstart (Engine.start_held _ _ _) hguard
      rw [hidle] at hb
      cases hb
    obtain ⟨u, b, rest, hu, huacc, hgoing, hid, hphase, hkept, hsince, huntil, hact, hafter, rfl⟩ :=
      listing htraced hacc halone rfl hfree h hover
    have hid : b.id = s.count := hid
    have hkept : u.store = s.store := hkept
    have hresult := hasSwept_or_hasFailed hu huacc hgoing hphase hact hafter
      (by rw [hid]; exact hover)
    rw [hid, hkept] at hresult
    exact ⟨u.clock, hsince, huntil, hresult⟩

/-- A sweep of four flows: one that takes long, one whose schedule cannot be read, one whose
run breaks down and one that is run at once.  The latter is put in first, and yet the sweep
gives the records in the order of the list. -/
theorem lone_sweep_fourFlows :
    let noon : Instant := ⟨63871329600000000⟩
    let slow : Flow := ⟨"a", "* * * * *", true, [.fetch ⟨"x", "http://h/", .get, none, none, none⟩]⟩
    let flow (name schedule : String) : Flow := ⟨name, schedule, true, []⟩
    let create (f : Flow) : Phase := .request (.create f)
    let start : Engine :=
      .start (.start noon (fun _ _ => ⟨20000000, .ok ⟨200, [], []⟩⟩) fun _ => "run")
      (.memory (.empty (2 : Nat))) (interpreter ⟨true, 30000000, false⟩)
    let asked :=
      (((start.spawn (.time noon) (create slow)).spawn (.time noon)
        (create (flow "b" "never"))).spawn
      (.time noon) (create (flow "c" "* * * * *"))).spawn (.time noon)
        (create (flow "d" "* * * * *"))
    let s := asked.runFor [0, 1, 2, 3] 10
    let outages : Outages := ⟨["c"], [], false⟩
    let begun := s.spawn (.time noon) (.sweep none outages false)
    let trace := begun.traceFor [s.count] 60
    let s' := begun.runFor [s.count] 60
    ∃ fs u kept records, s'.HasSwept s.count s.store trace outages fs u kept records ∧
      records.map (·.flowId) = ["a", "d"] ∧ trace.journal.puts.map (·.flowId) = ["d", "a"] := by
  intro noon slow flow create start asked s outages begun trace s'
  have hslow : (Operation.create slow).WellFormed := by
    refine ⟨by decide, fun step hstep => ?_, by decide +kernel⟩
    obtain rfl := List.mem_singleton.mp hstep
    exact ⟨by decide, fun _ hs => (by cases hs), fun _ htimeout => by cases htimeout⟩
  have hb : (Operation.create (flow "b" "never")).WellFormed :=
    ⟨by decide, fun _ h => (by cases h), by decide +kernel⟩
  have hc : (Operation.create (flow "c" "* * * * *")).WellFormed :=
    ⟨by decide, fun _ h => (by cases h), by decide +kernel⟩
  have hd : (Operation.create (flow "d" "* * * * *")).WellFormed :=
    ⟨by decide, fun _ h => (by cases h), by decide +kernel⟩
  have hempty : (Store.memory (.empty (2 : Nat))).Holds (.empty (2 : Nat)) := rfl
  have hstart : start.Traced 2 [] := Engine.start_traced (by decide) hempty (interpreter_isTimely _)
  have hasked : Course Phase.IsArrival Engine.AllWait start [] asked :=
    (((Course.refl.arrive (.request hslow) noon).arrive (.request hb) noon).arrive
      (.request hc) noon).arrive
      (.request hd) noon
  have hbefore :=
    hasked.trans
      (Engine.runFor_trace _ (hasked.traced (fun _ hp => hp) hstart).orderly (by decide)
    [0, 1, 2, 3] 10 (by decide +kernel))
  have hidle : s.activities = [] := List.eq_nil_of_length_eq_zero (by decide +kernel)
  have hcourse : Course (fun _ => False) Engine.AllWait begun trace s' :=
    Engine.runFor_trace _ ((hbefore.traced (fun _ hp => hp) hstart).orderly.spawn _ _)
      (by decide +kernel) _ 60
      (by decide +kernel)
  have hputs : trace.journal.puts.map (·.flowId) = ["d", "a"] := by decide +kernel
  have hrecords : (s'.ended? s.count).map (·.ending.records.map (·.flowId)) =
      some ["a", "d"] := by decide +kernel
  obtain ⟨_, hover⟩ := lone_sweep (by decide) (interpreter_isTimely _)
    (Or.inl (b := _ = Store.table (.empty default 2)) rfl) hbefore hidle hcourse
  obtain ⟨c, _, _, ⟨fs, u, kept, records, _, hswept⟩ | ⟨_, hfailed⟩⟩ := hover (by decide +kernel)
  · obtain ⟨e, hended, hending⟩ := hswept.ended
    rw [hended, Option.map_some, hending] at hrecords
    exact ⟨fs, u, kept, records, hswept, Option.some_inj.mp hrecords, hputs⟩
  · rw [hfailed.puts] at hputs
    cases hputs

end Course

end Cadence
