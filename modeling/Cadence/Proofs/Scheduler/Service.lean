/-
The runs of a sweep.

A sweep begins a run for each flow that it finds due and ends when all of these have ended,
with the records that they left.

* `Phase.Serves` — a run of a sweep goes on for a flow;
* `Engine.Serves` — what has become of it: it goes on, it has put its record into the
  history, or it has left no record, for a reason that is known;
* `Engine.Collects` — what has become of the sweep: it waits for its runs, or it ended with
  their records;
* `Engine.Conducts` — both of these, for all flows that a sweep found due;
* `Engine.surveyed` — a sweep that lists its flows conducts their runs, or fails;
* `Course.conducts` — it does so in every course.
-/
import Cadence.Proofs.Scheduler.Dates
import Cadence.Proofs.Scheduler.Ledger

namespace Cadence

open Calendar

/-! ### One run -/

/-- The run of a sweep goes on for a flow, or is to break down. -/
def Phase.Serves (outages : Outages) (f : StoredFlow) : Phase → Prop
  | .lose g => g = f ∧ f.id ∈ outages.runs
  | .run task goal => f.id ∉ outages.runs ∧ goal = .sweep f (outages.appends.contains f.id) ∧
      ∀ c, task.Ends .loose (fun _ r => r.IsOf f .cron) c
  | .append r goal =>
    f.id ∉ outages.runs ∧ goal = .sweep f (outages.appends.contains f.id) ∧ r.IsOf f .cron
  | _ => False

/-- The store refused the record of a run of a flow. -/
def Trace.Refused (trace : Trace) (f : StoredFlow) (i : Nat) : Prop :=
  ∃ d ∈ trace, d.actor.id = i ∧ d.entry.isAnswered = false ∧
    ∃ r, d.entry.operation = .append r ∧ r.IsOf f .cron

/-- Why the run of a flow leaves no record: it breaks down, or its record is refused. -/
def Trace.Loses (trace : Trace) (outages : Outages) (f : StoredFlow) (i : Nat) : Prop :=
  f.id ∈ outages.runs ∨ f.id ∈ outages.appends ∨ trace.Refused f i

theorem Trace.Loses.append {trace : Trace} {outages : Outages} {f : StoredFlow} {i : Nat}
    (h : trace.Loses outages f i) (trace' : Trace) : (trace ++ trace').Loses outages f i := by
  rcases h with h | h | ⟨d, hd, hrefused⟩
  · exact Or.inl h
  · exact Or.inr (Or.inl h)
  · exact Or.inr (Or.inr ⟨d, List.mem_append_left _ hd, hrefused⟩)

theorem Trace.Loses.append_left {trace : Trace} {outages : Outages} {f : StoredFlow} {i : Nat}
    (h : trace.Loses outages f i) (before : Trace) : (before ++ trace).Loses outages f i := by
  rcases h with h | h | ⟨d, hd, hrefused⟩
  · exact Or.inl h
  · exact Or.inr (Or.inl h)
  · exact Or.inr (Or.inr ⟨d, List.mem_append_right _ hd, hrefused⟩)

namespace Phase.Serves

variable {s : Engine} {a : Activity} {m : Move} {outages : Outages} {f : StoredFlow}

theorem begins (s : Engine) (hi : s.interpret.IsTimely) (outages : Outages)
    (hf : f.definition.WellFormed) :
    (s.runPhase outages f).Serves outages f := by
  unfold Engine.runPhase
  split
  · next hlost => exact ⟨rfl, List.contains_iff_mem.mp hlost⟩
  · next hlost =>
    refine ⟨fun hmem => hlost (List.contains_iff_mem.mpr hmem), rfl, fun c => ?_⟩
    exact (StoredFlow.record_loose hi hf .cron c).mono fun _ _ hr => hr.2

theorem moves (h : a.phase.Serves outages f) (hclock : inCalendar s.clock.micros = true)
    (hm : s.Allows a m) {turn : Turn} {phase : Phase} (hfate : m.fate = .onward turn phase) :
    phase.Serves outages f := by
  cases hm.onward hfate with
  | waits hphase =>
    rw [hphase] at h
    obtain ⟨hruns, hgoal, hends⟩ := h
    exact ⟨hruns, hgoal, fun c => hends c () c True.intro⟩
  | asks hphase he =>
    rw [hphase] at h
    obtain ⟨hruns, hgoal, hends⟩ := h
    exact ⟨hruns, hgoal, fun c => hends s.clock _ c (s.world.perform_loose hclock _ c)⟩
  | finishes hphase hgoal =>
    rw [hphase] at h
    obtain ⟨hruns, hgoal, hends⟩ := h
    exact ⟨hruns, hgoal, hends s.clock⟩
  | loads hphase hanswer => rw [hphase] at h; exact h.elim
  | sweeps hphase => rw [hphase] at h; exact h.elim
  | surveys hphase hrequest => rw [hphase] at h; exact h.elim
  | goesOn hphase hrow =>
    have hno : ¬ a.phase.Serves outages f :=
      Phase.of_isRow hphase (fun _ h => h) (fun _ h => h) (fun _ h => h) fun h => h
    exact absurd h hno

/-- A record that is refused leaves nothing in the history. -/
theorem refused (h : a.phase.Serves outages f) (hrefuses : s.Refuses a.phase) :
    s.puts? a = none ∧ Trace.Loses (s.deed? a).toList outages f a.id := by
  obtain ⟨r, goal, hphase, hwhy⟩ := hrefuses
  rw [hphase] at h
  obtain ⟨_, rfl, hr⟩ := h
  cases hcontains : outages.appends.contains f.id with
  | true =>
    -- an outage keeps the record from being asked for at all
    have hnone : a.phase.request? = none := by rw [hphase, hcontains]; rfl
    refine ⟨?_, Or.inr (Or.inl (List.contains_iff_mem.mp hcontains))⟩
    rw [Engine.puts?, Engine.deed?_none hnone]
    rfl
  | false =>
    have hrequest : a.phase.request? = some (.append r) := by rw [hphase, hcontains]; rfl
    obtain ⟨fault, hanswer⟩ : ∃ fault, s.answer (.append r) = .error fault := by
      rcases hwhy with ⟨g, hgoal⟩ | hanswer
      · rw [hcontains] at hgoal
        cases hgoal
      · exact hanswer
    constructor
    · rw [Option.eq_none_iff_forall_ne_some]
      intro r' hputs
      obtain ⟨hrequest', ans, hanswer'⟩ := Engine.puts?_some hputs
      obtain rfl := Operation.append.inj (Option.some_inj.mp (hrequest.symm.trans hrequest'))
      cases hanswer.symm.trans hanswer'
    · refine Or.inr (Or.inr ?_)
      rw [Engine.deed?_some hrequest, hanswer]
      exact ⟨_, List.mem_singleton.mpr rfl, rfl, rfl, r, rfl, hr⟩

/-- A run ends with the record that it puts into the history, or without one, for a reason
that is known. -/
theorem ends (h : a.phase.Serves outages f) (hm : s.Allows a m) {ending : Ending}
    (hfate : m.fate = .ended ending) :
    (∃ r goal, a.phase = .append r goal ∧ ending = .record r ∧ s.puts? a = some r ∧ r.IsOf f .cron ∧
      f.id ∉ outages.runs ∧ f.id ∉ outages.appends) ∨
    (ending.isBlank = true ∧ s.puts? a = none ∧ Trace.Loses (s.deed? a).toList outages f a.id) := by
  cases hm with
  | @appends r goal ans hphase hrequest hanswer =>
    obtain rfl := Fate.ended.inj hfate
    have hputs : s.puts? a = some r := by
      rw [Engine.puts?, Engine.deed?_some hrequest, Option.bind_some]
      exact Entry.put?_some.mpr ⟨rfl, by rw [Entry.isAnswered, hanswer]; rfl⟩
    rw [hphase] at h hrequest
    obtain ⟨hruns, rfl, hr⟩ := h
    refine Or.inl ⟨r, _, hphase, rfl, hputs, hr, hruns, fun hmem => ?_⟩
    rw [List.contains_iff_mem.mpr hmem] at hrequest
    cases hrequest
  | quits hphase hblank hrefused =>
    obtain rfl := Fate.ended.inj hfate
    refine Or.inr ⟨hblank, ?_⟩
    cases hrun : a.phase.isRun with
    | true => exact h.refused (hrefused hrun)
    | false =>
      cases hp : a.phase with
      | lose g =>
        rw [hp] at h
        refine ⟨?_, Or.inl h.2⟩
        rw [Engine.puts?, Engine.deed?_none (by rw [hp]; rfl)]
        rfl
      | run task goal => rw [hp] at hrun; cases hrun
      | append r goal => rw [hp] at hrun; cases hrun
      | _ => rw [hp] at h; exact h.elim
  | looks hphase =>
    rw [hphase] at h
    cases h.2.1
  | skips hphase hguard => rw [hphase] at h; exact h.elim
  | rests hphase hblank hdue => rw [hphase] at h; exact h.elim
  | collects hphase => rw [hphase] at h; exact h.elim
  | _ => cases hfate

end Phase.Serves

/-! ### What has become of runs and of their sweep -/

namespace Engine

/-- What has become of the run that a sweep began for a flow at an instant. -/
inductive Serves (trace : Trace) (s : Engine) (outages : Outages) (f : StoredFlow)
    (since : Instant) (i : Nat) :
    Prop where
  | going {b : Activity} (hgoing : b ∈ s.activities) (hid : b.id = i)
      (hphase : b.phase.Serves outages f)
      (htimed : b.phase.IsTimed since s.clock)
  | recorded {e : Ended} {r : RunRecord} {b d : Instant} (hended : s.ended? i = some e)
      (hending : e.ending = .record r) (hput : trace.putBy i = [r]) (hr : r.IsOf f .cron)
        (hspans : r.Spans b d)
      (hsince : since ≤ b) (hnow : d ≤ s.clock) (hruns : f.id ∉ outages.runs)
        (happends : f.id ∉ outages.appends)
  | lost {e : Ended} (hended : s.ended? i = some e) (hblank : e.ending.isBlank = true)
      (hput : trace.putBy i = []) (hloses : trace.Loses outages f i)

/-- What has become of a sweep with given runs. -/
inductive Collects (s : Engine) (i : Nat) (runs : List Nat) : Prop where
  | waiting {b : Activity} (hgoing : b ∈ s.activities) (hid : b.id = i)
      (hturn : b.turn = .after runs)
      (hphase : b.phase = .collect runs)
  | collected {e : Ended} (hended : s.ended? i = some e)
      (hending : e.ending = .swept (runs.filterMap s.recordOf?))
        (hall : ∀ j ∈ runs, ∃ e, s.ended? j = some e)

/-- The runs of the flows that a sweep found due, by their ids. -/
def runIds (first : Nat) (due : List StoredFlow) : List Nat :=
  (List.range due.length).map (first + ·)

/-- A sweep conducts the runs of the flows that it found due at an instant, from a first id on. -/
structure Conducts (trace : Trace) (s : Engine) (outages : Outages) (due : List StoredFlow)
    (since : Instant) (first i : Nat) : Prop where
  serves : ∀ k f, due[k]? = some f → s.Serves trace outages f since (first + k)
  collects : s.Collects i (runIds first due)

variable {limit : Nat} {trace : Trace} {s s' : Engine} {a : Activity} {m : Move} {outages : Outages}
  {f : StoredFlow} {due : List StoredFlow} {since t : Instant} {first i j : Nat}

theorem mem_runIds : j ∈ runIds first due ↔ ∃ k f, due[k]? = some f ∧ j = first + k := by
  simp only [runIds, List.mem_map, List.mem_range]
  constructor
  · rintro ⟨k, hk, rfl⟩
    exact ⟨k, due[k], List.getElem?_eq_getElem hk, rfl⟩
  · rintro ⟨k, f, hf, rfl⟩
    exact ⟨k, (List.getElem?_eq_some_iff.mp hf).1, rfl⟩

theorem ended?_some {e : Ended} (h : s.ended? i = some e) : e ∈ s.endings ∧ e.id = i := by
  have hid := List.find?_some h
  exact ⟨List.mem_of_find?_eq_some h, beq_iff_eq.mp hid⟩

theorem Accounts.isGoing (h : s.Accounts trace) {e : Ended} (hended : s.ended? i = some e) :
    s.isGoing i = false := by
  obtain ⟨he, rfl⟩ := ended?_some hended
  exact List.any_eq_false.mpr fun b hb hid => (h.ended e he).2 b hb (beq_iff_eq.mp hid)

theorem ended?_step (h : s.Accounts trace) (ha : a ∈ s.activities)
    (hbecomes : s.Becomes a m (s.step a)) {e : Ended} (hended : s.ended? i = some e) :
    (s.step a).ended? i = some e := by
  rw [ended?, hbecomes.endings]
  cases m.fate with
  | onward turn phase => exact hended
  | ended ending =>
    obtain ⟨he, hid⟩ := ended?_some hended
    have hother : ¬ (a.id == i) = true := fun heq =>
      (h.ended e he).2 a ha (beq_iff_eq.mp heq |>.trans hid.symm)
    exact (List.find?_cons_of_neg (p := fun x : Ended => x.id == i) hother).trans hended

theorem ended?_of_ended (hbecomes : s.Becomes a m (s.step a)) {ending : Ending}
    (hfate : m.fate = .ended ending) :
    (s.step a).ended? a.id = some ⟨a.id, ending, s.clock⟩ := by
  rw [ended?, hbecomes.endings, hfate, endingsAfter]
  exact List.find?_cons_of_pos (beq_self_eq_true a.id)

theorem Serves.ended (h : s.Serves trace outages f since i) (hover : s.isGoing i = false) :
    ∃ e, s.ended? i = some e := by
  cases h with
  | going hb hid hphase htimed =>
    exact absurd (beq_iff_eq.mpr hid) (List.any_eq_false.mp hover _ hb)
  | recorded hended hending hput hr hspans hsince hnow hruns happends => exact ⟨_, hended⟩
  | lost hended hblank hput hloses => exact ⟨_, hended⟩

/-- A sweep whose turn has come collects the records of its runs. -/
theorem Allows.of_collect {runs : List Nat} (hm : s.Allows a m) (hphase : a.phase = .collect runs) :
    m.fate = .ended (.swept (runs.filterMap s.recordOf?)) := by
  cases hm with
  | collects hp =>
    obtain rfl := Phase.collect.inj (hphase.symm.trans hp)
    rfl
  | quits hp _ _ => rw [hphase] at hp; cases hp
  | goesOn hp _ _ => rw [hphase] at hp; cases hp
  | loads hp _ => cases hphase.symm.trans hp
  | waits hp => cases hphase.symm.trans hp
  | asks hp _ => cases hphase.symm.trans hp
  | looks hp => cases hphase.symm.trans hp
  | finishes hp _ => cases hphase.symm.trans hp
  | appends hp _ _ => cases hphase.symm.trans hp
  | skips hp _ => cases hphase.symm.trans hp
  | sweeps hp _ => cases hphase.symm.trans hp
  | rests hp _ _ => cases hphase.symm.trans hp
  | surveys hp _ _ _ _ _ => cases hphase.symm.trans hp

/-- A sweep that lists its flows begins the runs of those that are due and waits for them,
or it ends. -/
theorem Allows.of_survey {now : Option Moment} {spawned : Bool} (hm : s.Allows a m)
    (hphase : a.phase = .survey now outages spawned) :
    (∃ ending, m = ⟨.ended ending, [], false⟩ ∧
      (s.dueFlows? now outages = some [] ∧ ending = .swept [] ∨
      s.dueFlows? now outages = none ∧ ∀ records, ending ≠ .swept records)) ∨
    ∃ due, s.dueFlows? now outages = some due ∧ m.begun = due.map (s.runPhase outages) ∧
      m.fate = .onward (.after (runIds s.count due)) (.collect (runIds s.count due)) ∧
      ∃ ans t, s.answer .all = .ok ans ∧ (judgeAll t ans.flowList).1 = .ok due := by
  cases hm with
  | rests hp hblank hdue =>
    cases hphase.symm.trans hp
    exact Or.inl ⟨_, rfl, hdue⟩
  | surveys hp hrequest hanswer hnow hdue hsome =>
    cases hphase.symm.trans hp
    exact Or.inr ⟨_, dueFlows?_ok (request?_survey hp hrequest) hanswer hnow hdue, rfl, rfl,
      _, _, hanswer, hdue⟩
  | quits hsweep hblank hrefused => rw [hphase] at hsweep; cases hsweep
  | goesOn hrow hrow' hbegun => rw [hphase] at hrow; cases hrow
  | loads hp _ => cases hphase.symm.trans hp
  | waits hp => cases hphase.symm.trans hp
  | asks hp _ => cases hphase.symm.trans hp
  | looks hp => cases hphase.symm.trans hp
  | finishes hp _ => cases hphase.symm.trans hp
  | appends hp _ _ => cases hphase.symm.trans hp
  | skips hp _ => cases hphase.symm.trans hp
  | sweeps hp _ => cases hphase.symm.trans hp
  | collects hp => cases hphase.symm.trans hp

/-! ### Time passes and others arrive -/

section

variable (hendings : s'.endings = s.endings)

include hendings

theorem ended?_congr (i : Nat) : s'.ended? i = s.ended? i := by rw [ended?, hendings, ended?]

theorem recordOf?_congr : s'.recordOf? = s.recordOf? := by
  funext i
  unfold recordOf?
  rw [ended?_congr hendings]

variable (hgoing : ∀ b ∈ s.activities, b ∈ s'.activities)

include hgoing

theorem Serves.keep (h : s.Serves trace outages f since i) (hclock : s.clock ≤ s'.clock) :
    s'.Serves trace outages f since i := by
  cases h with
  | going hb hid hphase htimed => exact .going (hgoing _ hb) hid hphase (htimed.pass hclock)
  | recorded hended hending hput hr hspans hsince hnow hruns happends =>
    exact .recorded ((ended?_congr hendings i).trans hended) hending hput hr hspans hsince
      (Int.le_trans hnow hclock) hruns happends
  | lost hended hblank hput hloses =>
    exact .lost ((ended?_congr hendings i).trans hended) hblank hput hloses

theorem Conducts.keep (h : s.Conducts trace outages due since first i)
    (hclock : s.clock ≤ s'.clock) :
    s'.Conducts trace outages due since first i where
  serves := fun k f hf => (h.serves k f hf).keep hendings hgoing hclock
  collects := by
    cases h.collects with
    | waiting hb hid hturn hphase => exact .waiting (hgoing _ hb) hid hturn hphase
    | collected hended hending hall =>
      refine .collected ((ended?_congr hendings i).trans hended) ?_ fun j hj => ?_
      · rw [recordOf?_congr hendings]
        exact hending
      · rw [ended?_congr hendings]
        exact hall j hj

end

/-! ### Steps -/

section

variable (hs : s.Traced limit trace) (hacc : s.Accounts trace) (ha : a ∈ s.activities)

include hs hacc ha

theorem Serves.step (h : s.Serves trace outages f since i) :
    (s.step a).Serves (trace ++ (s.deed? a).toList) outages f since i := by
  obtain ⟨m, hm, hbecomes⟩ := step_moves hs.orderly ha
  have hother {e : Ended} (hended : s.ended? i = some e) : a.id ≠ i := by
    obtain ⟨he, rfl⟩ := ended?_some hended
    exact (hacc.ended e he).2 a ha
  cases h with
  | @going b hb hid hphase htimed =>
    by_cases hact : b.id = a.id
    · -- the run itself does the next thing
      obtain rfl := hs.orderly.unique ha hb hact
      have hput : Trace.putBy (trace ++ (s.deed? b).toList) i = (s.puts? b).toList := by
        rw [Trace.putBy_append, ← hid, hacc.going b hb, putBy_deed]
        rfl
      cases hfate : m.fate with
      | onward turn phase =>
        obtain ⟨c, hc, hcid, _, rfl⟩ := hbecomes.onward turn phase hfate
        exact .going hc (hcid.trans hid) (hphase.moves hs.clock hm hfate)
          (hbecomes.clock ▸ htimed.moves hm hfate)
      | ended ending =>
        have hended := ended?_of_ended hbecomes hfate
        rw [hid] at hended
        rcases hphase.ends hm hfate with
          ⟨r, goal, happend, rfl, hputs, hr, hruns, happends⟩ | ⟨hblank, hputs, hloses⟩
        · rw [happend] at htimed
          obtain ⟨c, d, hc, hd, hspans⟩ := htimed
          exact .recorded hended rfl (by rw [hput, hputs]; rfl) hr hspans hc
            (hbecomes.clock ▸ hd) hruns happends
        · exact .lost hended hblank (by rw [hput, hputs]; rfl) (hid ▸ hloses.append_left trace)
    · exact .going (hbecomes.stay b hb hact) hid hphase (hbecomes.clock ▸ htimed)
  | recorded hended hending hput hr hspans hsince hnow hruns happends =>
    refine .recorded (ended?_step hacc ha hbecomes hended) hending ?_ hr hspans hsince
      (hbecomes.clock ▸ hnow) hruns happends
    rw [Trace.putBy_append, hput, putBy_deed_ne (hother hended)]
    rfl
  | lost hended hblank hput hloses =>
    refine .lost (ended?_step hacc ha hbecomes hended) hblank ?_ (hloses.append _)
    rw [Trace.putBy_append, hput, putBy_deed_ne (hother hended)]
    rfl

omit hs in
/-- Records of runs that have ended stay as they are. -/
theorem records_step (hbecomes : s.Becomes a m (s.step a)) {runs : List Nat}
    (hall : ∀ j ∈ runs, ∃ e, s.ended? j = some e) :
    runs.filterMap (s.step a).recordOf? = runs.filterMap s.recordOf? := by
  refine List.filterMap_congr fun j hj => ?_
  obtain ⟨e, hended⟩ := hall j hj
  unfold recordOf?
  rw [hended, ended?_step hacc ha hbecomes hended]

/-- **A step of an activity whose turn has come leaves a sweep conducting its runs.** -/
theorem Conducts.step (hturn : s.turnOf? a.turn = some t)
    (h : s.Conducts trace outages due since first i) :
    (s.step a).Conducts (trace ++ (s.deed? a).toList) outages due since first i where
  serves := fun k f hf => (h.serves k f hf).step hs hacc ha
  collects := by
    obtain ⟨m, hm, hbecomes⟩ := step_moves hs.orderly ha
    cases h.collects with
    | @waiting b hb hid hafter hphase =>
      by_cases hact : b.id = a.id
      · -- the turn of the sweep comes when all its runs have ended
        obtain rfl := hs.orderly.unique ha hb hact
        rw [hafter, turnOf?, Option.ite_none_left_eq_some] at hturn
        have hall : ∀ j ∈ runIds first due, ∃ e, s.ended? j = some e := by
          intro j hj
          obtain ⟨k, f, hf, rfl⟩ := mem_runIds.mp hj
          refine (h.serves k f hf).ended ?_
          have hnone := List.any_eq_false.mp (Bool.eq_false_iff.mpr hturn.1) _ hj
          exact Bool.eq_false_iff.mpr hnone
        refine .collected (hid ▸ ended?_of_ended hbecomes (hm.of_collect hphase)) ?_ fun j hj => ?_
        · rw [records_step hacc ha hbecomes hall]
        · obtain ⟨e, hended⟩ := hall j hj
          exact ⟨e, ended?_step hacc ha hbecomes hended⟩
      · exact .waiting (hbecomes.stay b hb hact) hid hafter hphase
    | collected hended hending hall =>
      refine .collected (ended?_step hacc ha hbecomes hended) ?_ fun j hj => ?_
      · rw [records_step hacc ha hbecomes hall]
        exact hending
      · obtain ⟨e, he⟩ := hall j hj
        exact ⟨e, ended?_step hacc ha hbecomes he⟩

omit hacc in
/-- **A sweep that lists its flows conducts the runs of those that are due from then on, or
it fails.** -/
theorem surveyed {now : Option Moment} {spawned : Bool}
    (hphase : a.phase = .survey now outages spawned) :
    (∃ due, s.dueFlows? now outages = some due ∧
      (s.step a).Conducts (trace ++ (s.deed? a).toList) outages due s.clock s.count a.id) ∨
    (s.dueFlows? now outages = none ∧
      ∃ e, (s.step a).ended? a.id = some e ∧ ∀ records, e.ending ≠ .swept records) := by
  obtain ⟨m, hm, hbecomes⟩ := step_moves hs.orderly ha
  rcases hm.of_survey hphase with ⟨ending, rfl, ⟨hnil, rfl⟩ | ⟨hnone, hfails⟩⟩ |
    ⟨due, hsome, hruns, hfate, ans, t, hanswer, hdue⟩
  · have hended := ended?_of_ended hbecomes rfl
    exact Or.inl ⟨[], hnil, fun _ _ hf => (by cases hf),
      .collected hended rfl fun _ hj => by cases hj⟩
  · exact Or.inr ⟨hnone, _, ended?_of_ended hbecomes rfl, hfails⟩
  · refine Or.inl ⟨due, hsome, fun k f hf => ?_, ?_⟩
    · have hbegun : m.begun[k]? = some (s.runPhase outages f) := by
        rw [hruns, List.getElem?_map, hf]
        rfl
      obtain ⟨b, hb, hid, _, hbphase⟩ := hbecomes.begun k _ hbegun
      have hmem := List.mem_of_getElem? hf
      have hwell := ((hs.listed hanswer).2.2 f ((judgeAll_sublist hdue).mem hmem)).1
      refine .going hb hid (hbphase ▸ .begins s hs.interpret outages hwell) ?_
      rw [hbphase, hbecomes.clock]
      exact .begins (Int.le_refl _) (hm.begins hbegun)
    · obtain ⟨b, hb, hid, hturn, hbphase⟩ := hbecomes.onward _ _ hfate
      exact .waiting hb hid hturn hbphase

end

/-- A sweep that is over has collected the records of its runs, all of which have ended. -/
theorem Conducts.over (h : s.Conducts trace outages due since first i)
    (hover : s.isGoing i = false) :
    (∃ e, s.ended? i = some e ∧ e.ending = .swept ((runIds first due).filterMap s.recordOf?)) ∧
      ∀ k f, due[k]? = some f → ∃ e, s.ended? (first + k) = some e := by
  cases h.collects with
  | waiting hb hid hturn hphase =>
    exact absurd (beq_iff_eq.mpr hid) (List.any_eq_false.mp hover _ hb)
  | collected hended hending hall =>
    exact ⟨⟨_, hended, hending⟩, fun k f hf => hall _ (mem_runIds.mpr ⟨k, f, hf, rfl⟩)⟩

end Engine

/-- **A sweep conducts its runs in every course.** -/
theorem Course.conducts {arrives : Phase → Prop} {quiet : Engine → Prop}
    (harrives : ∀ p, arrives p → p.IsArrival) {limit : Nat} {before trace : Trace} {s s' : Engine}
    (h : Course arrives quiet s trace s') (hs : s.Traced limit before) (hacc : s.Accounts before)
    {outages : Outages} {due : List StoredFlow} {since : Instant} {first i : Nat}
    (hconducts : s.Conducts before outages due since first i) :
    s'.Conducts (before ++ trace) outages due since first i := by
  induction h with
  | refl => rwa [List.append_nil]
  | act hcourse hgoing hturn _ ih =>
    have htraced := hcourse.traced harrives hs
    have haccounts := hcourse.accounts harrives hs hacc
    rw [← List.append_assoc]
    exact ih.step htraced haccounts hgoing hturn
  | @pass _ u _ t _ _ _ ih =>
    exact Engine.Conducts.keep (s := u) rfl (fun _ hb => hb) ih (u.clock_le_waitUntil t)
  | @arrive _ u _ _ _ t ih =>
    exact Engine.Conducts.keep (s := u) rfl (fun _ hb => List.mem_append_left _ hb) ih
      (Int.le_refl _)

end Cadence
