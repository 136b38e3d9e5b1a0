/-
What one activity can do in one step.

* `Phase.request?` — the request that an activity makes to the store in its next step;
* `Engine.Allows` — the moves that an engine allows an activity: how it goes on or ends,
  what it begins and whether the guard is held afterwards;
* `Engine.Onward`, `Engine.Begins` — how an activity goes on, and what it begins;
* `Engine.Becomes` — what an engine is after a move;
* `Engine.step_moves` — each step is a move that the engine allows.
-/
import Mathlib.Data.List.Nodup
import Cadence.Proofs.Task.Ends
import Cadence.Scheduler.Engine

namespace Cadence

open Calendar

/-! ### Requests -/

/-- The request that an activity makes to the store in its next step, if it makes one. -/
def Phase.request? : Phase → Option Operation
  | .request op => some op
  | .judge id _ | .load id _ _ _ => some (.find id)
  | .append _ (.sweep _ true) => none
  | .append record _ => some (.append record)
  | .survey _ outages _ => if outages.list then none else some .all
  | _ => none

/-- Whether an activity is within a run. -/
def Phase.isRun : Phase → Bool
  | .run _ _ | .append _ _ => true
  | _ => false

/-- Whether an activity is a sweep that holds the guard. -/
def Phase.holdsGuard : Phase → Bool
  | .survey _ _ _ | .collect _ => true
  | _ => false

/-- Whether an activity is a sweep. -/
def Phase.isSweep : Phase → Bool
  | .sweep _ _ _ | .survey _ _ _ | .collect _ => true
  | _ => false

theorem Phase.holdsGuard_of_isSweep {phase : Phase} (h : phase.isSweep = false) :
    phase.holdsGuard = false := by
  cases phase with
  | survey now outages spawned => cases h
  | collect runs => cases h
  | _ => rfl

/-- Whether an activity belongs to a row of sweeps. -/
def Phase.isRow : Phase → Bool
  | .commence _ | .attempt _ | .rest _ | .wind => true
  | _ => false

/-- What holds of the four phases of a row holds of every phase that belongs to one. -/
@[elab_as_elim] theorem Phase.of_isRow {motive : Phase → Prop} {phase : Phase}
    (h : phase.isRow = true) (commence : ∀ plan, motive (.commence plan))
    (attempt : ∀ plan, motive (.attempt plan)) (rest : ∀ plan, motive (.rest plan))
    (wind : motive .wind) : motive phase := by
  cases phase with
  | commence plan => exact commence plan
  | attempt plan => exact attempt plan
  | rest plan => exact rest plan
  | wind => exact wind
  | _ => cases h

/-- A row of sweeps asks nothing of the store itself. -/
theorem Phase.request?_of_isRow {phase : Phase} (h : phase.isRow = true) : phase.request? = none :=
  of_isRow h (fun _ => rfl) (fun _ => rfl) (fun _ => rfl) rfl

theorem Phase.isSweep_of_isRow {phase : Phase} (h : phase.isRow = true) : phase.isSweep = false :=
  of_isRow h (fun _ => rfl) (fun _ => rfl) (fun _ => rfl) rfl

theorem Phase.holdsGuard_of_isRow {phase : Phase} (h : phase.isRow = true) :
    phase.holdsGuard = false :=
  holdsGuard_of_isSweep (isSweep_of_isRow h)

/-- A run that has come to a record asks for nothing but the record to be put in. -/
theorem Phase.append_request? {r : RunRecord} {goal : Goal} {op : Operation}
    (h : (Phase.append r goal).request? = some op) : op = .append r := by
  unfold Phase.request? at h
  split at h <;> simp_all

/-- A sweep asks for nothing but the flows. -/
theorem Phase.survey_request? {now : Option Moment} {outages : Outages} {spawned : Bool}
    {op : Operation}
    (h : (Phase.survey now outages spawned).request? = some op) : op = .all :=
  (Option.some_inj.mp (Option.ite_none_left_eq_some.mp h).2).symm

/-- Whether an ending leaves no record. -/
def Ending.isBlank : Ending → Bool
  | .record _ => false
  | _ => true

/-- What becomes of an activity in one step. -/
inductive Fate where
  | ended (ending : Ending)
  | onward (turn : Turn) (phase : Phase)

/-- What becomes of an activity, the phases of the activities that it begins, and whether
the guard is held afterwards. -/
structure Move where
  fate : Fate
  begun : List Phase
  guard : Bool

namespace Engine

/-- The answer of the store to a request. -/
def answer (s : Engine) (op : Operation) : Except StoreFault Answer := (s.store.apply s.now op).1

/-- The store after the next step of an activity. -/
def storeAfter (s : Engine) (a : Activity) : Store :=
  match a.phase.request? with
  | some op => (s.store.apply s.now op).2
  | none => s.store

/-- How the run of a due flow begins. -/
def runPhase (s : Engine) (outages : Outages) (f : StoredFlow) : Phase :=
  if outages.runs.contains f.id then .lose f
  else .run (f.record s.interpret .cron) (.sweep f (outages.appends.contains f.id))

/-- The record of a run is refused, by an outage or by the store. -/
def Refuses (s : Engine) (phase : Phase) : Prop :=
  ∃ r goal, phase = .append r goal ∧
    ((∃ f, goal = .sweep f true) ∨ ∃ fault, s.answer (.append r) = .error fault)

/-- The due flows that a sweep finds, unless it fails. -/
def dueFlows? (s : Engine) (now : Option Moment) (outages : Outages) : Option (List StoredFlow) :=
  if outages.list then none
  else do
    let ans ← (s.answer .all).toOption
    let t ← (now.getD s.now).toInstant.toOption
    (judgeAll t ans.flowList).1.toOption

/-- The moves that an engine allows an activity. -/
inductive Allows (s : Engine) (a : Activity) : Move → Prop where
  /-- Anything but a sweep may end without a record, a run only if its record is refused. -/
  | quits {ending : Ending} (hphase : a.phase.isSweep = false) (hblank : ending.isBlank = true)
      (hrefused : a.phase.isRun = true → s.Refuses a.phase) :
      s.Allows a ⟨.ended ending, [], s.guard⟩
  | loads {id : String} {trigger : Trigger} {interpret : Interpreter} {goal : Goal} {f : StoredFlow}
      (hphase : a.phase = .load id trigger interpret goal)
        (hanswer : s.answer (.find id) = .ok (.flow f)) :
      s.Allows a ⟨.onward a.turn (.run (f.record interpret trigger) goal), [], s.guard⟩
  | waits {n : Nat} {next : Unit → Task RunRecord} {goal : Goal}
      (hphase : a.phase = .run (.ask (.wait n) next) goal) :
      s.Allows a ⟨.onward (.time (s.clock.after n)) (.run (next ()) goal), [], s.guard⟩
  | asks {e : Effect} {next : e.Answer → Task RunRecord} {goal : Goal}
      (hphase : a.phase = .run (.ask e next) goal) (he : ∀ n, e ≠ .wait n) :
      s.Allows a ⟨.onward a.turn (.run (next (s.world.perform e).1) goal), [], s.guard⟩
  | looks {r : RunRecord} (hphase : a.phase = .run (.done r) .look) :
      s.Allows a ⟨.ended (.record r), [], s.guard⟩
  | finishes {r : RunRecord} {goal : Goal} (hphase : a.phase = .run (.done r) goal)
      (hgoal : goal ≠ .look) :
      s.Allows a ⟨.onward a.turn (.append r goal), [], s.guard⟩
  | appends {r : RunRecord} {goal : Goal} {ans : Answer} (hphase : a.phase = .append r goal)
      (hrequest : a.phase.request? = some (.append r)) (hanswer : s.answer (.append r) = .ok ans) :
      s.Allows a ⟨.ended (.record r), [], s.guard⟩
  | skips {now : Option Moment} {outages : Outages} {spawned : Bool}
      (hphase : a.phase = .sweep now outages spawned) (hguard : s.guard = true) :
      s.Allows a ⟨.ended (.swept []), [], true⟩
  | sweeps {now : Option Moment} {outages : Outages} {spawned : Bool}
      (hphase : a.phase = .sweep now outages spawned) (hguard : s.guard = false) :
      s.Allows a ⟨.onward a.turn (.survey now outages spawned), [], true⟩
  /-- A sweep that fails, or has no due flows, ends. -/
  | rests {now : Option Moment} {outages : Outages} {spawned : Bool} {ending : Ending}
      (hphase : a.phase = .survey now outages spawned) (hblank : ending.isBlank = true)
      (hdue : s.dueFlows? now outages = some [] ∧ ending = .swept [] ∨
        s.dueFlows? now outages = none ∧ ∀ rs, ending ≠ .swept rs) :
      s.Allows a ⟨.ended ending, [], false⟩
  | surveys {now : Option Moment} {outages : Outages} {spawned : Bool} {ans : Answer} {t : Instant}
      {due : List StoredFlow} (hphase : a.phase = .survey now outages spawned)
      (hrequest : a.phase.request? = some .all) (hanswer : s.answer .all = .ok ans)
      (hnow : (now.getD s.now).toInstant = .ok t) (hdue : (judgeAll t ans.flowList).1 = .ok due)
      (hsome : due ≠ []) :
      s.Allows a ⟨.onward (.after ((List.range due.length).map (s.count + ·)))
        (.collect ((List.range due.length).map (s.count + ·))),
        due.map (s.runPhase outages), s.guard⟩
  | collects {runs : List Nat} (hphase : a.phase = .collect runs) :
      s.Allows a ⟨.ended (.swept (runs.filterMap s.recordOf?)), [], false⟩
  | goesOn {turn : Turn} {phase : Phase} {begun : List Phase} (hphase : a.phase.isRow = true)
      (hrow : phase.isRow = true) (hbegun : ∀ p ∈ begun, ∃ outages, p = .sweep none outages true) :
      s.Allows a ⟨.onward turn phase, begun, s.guard⟩

/-- How an activity goes on. -/
inductive Onward (s : Engine) (a : Activity) : Turn → Phase → Prop where
  | loads {id : String} {trigger : Trigger} {interpret : Interpreter} {goal : Goal} {f : StoredFlow}
      (hphase : a.phase = .load id trigger interpret goal)
        (hanswer : s.answer (.find id) = .ok (.flow f)) :
      s.Onward a a.turn (.run (f.record interpret trigger) goal)
  | waits {n : Nat} {next : Unit → Task RunRecord} {goal : Goal}
      (hphase : a.phase = .run (.ask (.wait n) next) goal) :
      s.Onward a (.time (s.clock.after n)) (.run (next ()) goal)
  | asks {e : Effect} {next : e.Answer → Task RunRecord} {goal : Goal}
      (hphase : a.phase = .run (.ask e next) goal) (he : ∀ n, e ≠ .wait n) :
      s.Onward a a.turn (.run (next (s.world.perform e).1) goal)
  | finishes {r : RunRecord} {goal : Goal} (hphase : a.phase = .run (.done r) goal)
      (hgoal : goal ≠ .look) :
      s.Onward a a.turn (.append r goal)
  | sweeps {now : Option Moment} {outages : Outages} {spawned : Bool}
      (hphase : a.phase = .sweep now outages spawned) :
        s.Onward a a.turn (.survey now outages spawned)
  | surveys {now : Option Moment} {outages : Outages} {spawned : Bool} {runs : List Nat}
      (hphase : a.phase = .survey now outages spawned) (hrequest : a.phase.request? = some .all) :
      s.Onward a (.after runs) (.collect runs)
  | goesOn {turn : Turn} {phase : Phase} (hphase : a.phase.isRow = true)
      (hrow : phase.isRow = true) :
      s.Onward a turn phase

/-- What an activity begins: the run of a due flow that it lists, or a sweep of its row. -/
inductive Begins (s : Engine) (a : Activity) : Phase → Prop where
  | run {now : Option Moment} {outages : Outages} {spawned : Bool} {ans : Answer} {t : Instant}
      {due : List StoredFlow} {f : StoredFlow} (hphase : a.phase = .survey now outages spawned)
      (hrequest : a.phase.request? = some .all) (hanswer : s.answer .all = .ok ans)
      (hnow : (now.getD s.now).toInstant = .ok t) (hdue : (judgeAll t ans.flowList).1 = .ok due)
      (hf : f ∈ due) : s.Begins a (s.runPhase outages f)
  | sweep (outages : Outages) (hphase : a.phase.isRow = true) :
    s.Begins a (.sweep none outages true)

theorem Allows.onward {s : Engine} {a : Activity} {m : Move} (h : s.Allows a m)
    {turn : Turn} {phase : Phase} (hfate : m.fate = .onward turn phase) :
    s.Onward a turn phase := by
  cases h with
  | loads hphase hanswer =>
    obtain ⟨rfl, rfl⟩ := Fate.onward.inj hfate
    exact .loads hphase hanswer
  | waits hphase =>
    obtain ⟨rfl, rfl⟩ := Fate.onward.inj hfate
    exact .waits hphase
  | asks hphase he =>
    obtain ⟨rfl, rfl⟩ := Fate.onward.inj hfate
    exact .asks hphase he
  | finishes hphase hgoal =>
    obtain ⟨rfl, rfl⟩ := Fate.onward.inj hfate
    exact .finishes hphase hgoal
  | sweeps hphase hguard =>
    obtain ⟨rfl, rfl⟩ := Fate.onward.inj hfate
    exact .sweeps hphase
  | surveys hphase hrequest hanswer hnow hdue hsome =>
    obtain ⟨rfl, rfl⟩ := Fate.onward.inj hfate
    exact .surveys hphase hrequest
  | goesOn hphase hrow hbegun =>
    obtain ⟨rfl, rfl⟩ := Fate.onward.inj hfate
    exact .goesOn hphase hrow
  | quits hphase hblank hrefused => cases hfate
  | looks hphase => cases hfate
  | appends hphase hrequest hanswer => cases hfate
  | skips hphase hguard => cases hfate
  | rests hphase hblank hdue => cases hfate
  | collects hphase => cases hfate

theorem Allows.begins {s : Engine} {a : Activity} {m : Move} (h : s.Allows a m) {k : Nat}
    {phase : Phase} (hbegun : m.begun[k]? = some phase) : s.Begins a phase := by
  cases h with
  | surveys hphase hrequest hanswer hnow hdue hsome =>
    obtain ⟨f, hf, rfl⟩ := List.mem_map.mp (List.mem_of_getElem? hbegun)
    exact .run hphase hrequest hanswer hnow hdue hf
  | goesOn hphase hrow hphases =>
    obtain ⟨outages, rfl⟩ := hphases phase (List.mem_of_getElem? hbegun)
    exact .sweep outages hphase
  | _ => cases hbegun

/-- Where an activity that is going on after a move comes from. -/
inductive Goes (s : Engine) (a : Activity) (m : Move) (b : Activity) : Prop where
  | stays (hgoing : b ∈ s.activities) (hother : b.id ≠ a.id)
  | moves (hfate : m.fate = .onward b.turn b.phase) (hid : b.id = a.id)
  | begins {k : Nat} (hbegun : m.begun[k]? = some b.phase) (hid : b.id = s.count + k)
      (hturn : b.turn = .time s.clock)

/-- The endings after a move. -/
def endingsAfter (s : Engine) (a : Activity) : Fate → List Ended
  | .ended ending => ⟨a.id, ending, s.clock⟩ :: s.endings
  | .onward _ _ => s.endings

/-- Activities have different ids, all of which were given out. -/
structure IsOrderly (s : Engine) : Prop where
  single : (s.activities.map (·.id)).Nodup
  id_lt : ∀ b ∈ s.activities, b.id < s.count

/-- What an engine is after a move. -/
structure Becomes (s : Engine) (a : Activity) (m : Move) (s' : Engine) : Prop where
  interpret : s'.interpret = s.interpret
  clock : s'.clock = s.clock
  store : s'.store = s.storeAfter a
  guard : s'.guard = m.guard
  going : ∀ b ∈ s'.activities, s.Goes a m b
  stay : ∀ b ∈ s.activities, b.id ≠ a.id → b ∈ s'.activities
  onward : ∀ turn phase, m.fate = .onward turn phase →
    ∃ b ∈ s'.activities, b.id = a.id ∧ b.turn = turn ∧ b.phase = phase
  begun : ∀ k phase, m.begun[k]? = some phase →
    ∃ b ∈ s'.activities, b.id = s.count + k ∧ b.turn = .time s.clock ∧ b.phase = phase
  endings : s'.endings = s.endingsAfter a m.fate
  orderly : s'.IsOrderly
  count : s.count + m.begun.length ≤ s'.count

/-! ### How moves are made -/

/-- An engine in which the same goes on as in another one, with the same interpreter at the
same time. -/
structure Echoes (s' s : Engine) : Prop where
  interpret : s'.interpret = s.interpret
  clock : s'.clock = s.clock
  activities : s'.activities = s.activities
  endings : s'.endings = s.endings
  count : s'.count = s.count

variable {s u : Engine} {a b : Activity}

theorem Echoes.refl (s : Engine) : s.Echoes s := ⟨rfl, rfl, rfl, rfl, rfl⟩

theorem Echoes.trans {s₂ : Engine} (h : s₂.Echoes u) (h' : u.Echoes s) : s₂.Echoes s :=
  ⟨h.interpret.trans h'.interpret, h.clock.trans h'.clock, h.activities.trans h'.activities,
    h.endings.trans h'.endings, h.count.trans h'.count⟩

theorem IsOrderly.of_echoes (h : u.Echoes s) (hs : s.IsOrderly) : u.IsOrderly :=
  ⟨h.activities ▸ hs.single, h.count ▸ h.activities ▸ hs.id_lt⟩

theorem IsOrderly.unique (h : s.IsOrderly) (ha : a ∈ s.activities) (hb : b ∈ s.activities)
    (hid : b.id = a.id) : b = a :=
  List.inj_on_of_nodup_map h.single hb ha hid

/-- Begins activities whose turn is now. -/
def spawnAll (s : Engine) (begun : List Phase) : Engine := begun.foldl (·.spawnNow ·) s

/-- Beginning activities adds them to those that are going on and changes nothing else. -/
theorem spawnAll_eq (s : Engine) (begun : List Phase) :
    ∃ new, s.spawnAll begun =
        { s with activities := s.activities ++ new, count := s.count + begun.length } ∧
      (∀ b ∈ new, ∃ k, begun[k]? = some b.phase ∧ b.id = s.count + k ∧ b.turn = .time s.clock) ∧
      ∀ k phase, begun[k]? = some phase →
        ∃ b ∈ new, b.id = s.count + k ∧ b.turn = .time s.clock ∧ b.phase = phase := by
  induction begun generalizing s with
  | nil =>
    refine ⟨[], ?_, fun _ hb => (by cases hb), fun _ _ hk => by cases hk⟩
    rw [List.append_nil]
    rfl
  | cons p begun ih =>
    obtain ⟨new, heq, hnew, hall⟩ := ih (s.spawnNow p)
    -- the first one gets the next id, and the others those after it
    refine ⟨⟨s.count, .time s.clock, s.count, p⟩ :: new, ?_, ?_, ?_⟩
    · rw [spawnAll, List.foldl_cons, ← spawnAll, heq]
      simp only [spawnNow, spawn, List.append_assoc, List.singleton_append, List.length_cons]
      congr 1
      omega
    · intro b hb
      rcases List.mem_cons.mp hb with rfl | hb
      · exact ⟨0, rfl, rfl, rfl⟩
      · obtain ⟨k, hk, hid, hturn⟩ := hnew b hb
        refine ⟨k + 1, hk, ?_, hturn⟩
        rw [hid]
        show s.count + 1 + k = _
        omega
    · intro k phase hk
      cases k with
      | zero => exact ⟨_, List.mem_cons_self, rfl, rfl, Option.some_inj.mp hk⟩
      | succ k =>
        obtain ⟨b, hb, hid, hturn, hphase⟩ := hall k phase hk
        refine ⟨b, List.mem_cons_of_mem _ hb, ?_, hturn, hphase⟩
        rw [hid]
        show s.count + 1 + k = _
        omega

/-! ### Orderly engines stay orderly -/

theorem IsOrderly.spawn (h : s.IsOrderly) (turn : Turn) (phase : Phase) :
    (s.spawn turn phase).IsOrderly where
  single := by
    show ((s.activities ++ [_]).map Activity.id).Nodup
    rw [List.map_append, List.nodup_append]
    refine ⟨h.single, List.nodup_singleton _, ?_⟩
    intro i hi j hj
    obtain ⟨b, hb, rfl⟩ := List.mem_map.mp hi
    obtain rfl := List.mem_singleton.mp hj
    have hlt := h.id_lt b hb
    show b.id ≠ s.count
    omega
  id_lt := by
    intro b hb
    show b.id < s.count + 1
    rcases List.mem_append.mp hb with hb | hb
    · have hlt := h.id_lt b hb
      omega
    · obtain rfl := List.mem_singleton.mp hb
      show s.count < _
      omega

theorem IsOrderly.spawnAll (h : s.IsOrderly) (begun : List Phase) :
    (s.spawnAll begun).IsOrderly := by
  induction begun generalizing s with
  | nil => exact h
  | cons p begun ih => exact ih (h.spawn _ _)

theorem IsOrderly.finish (h : s.IsOrderly) (a : Activity) (ending : Ending) :
    (s.finish a ending).IsOrderly where
  single := h.single.sublist (List.filter_sublist.map _)
  id_lt := fun b hb => h.id_lt b (List.mem_of_mem_filter hb)

/-- Changing activities but for their ids keeps an engine orderly. -/
theorem IsOrderly.change (h : s.IsOrderly) {f : Activity → Activity}
    (hf : ∀ b, (f b).id = b.id) (hactivities : u.activities = s.activities.map f)
    (hcount : s.count ≤ u.count) : u.IsOrderly where
  single := by
    rw [hactivities, List.map_map, show (fun b : Activity => b.id) ∘ f = (·.id) from funext hf]
    exact h.single
  id_lt := by
    intro b hb
    rw [hactivities] at hb
    obtain ⟨c, hc, rfl⟩ := List.mem_map.mp hb
    rw [hf]
    exact Nat.lt_of_lt_of_le (h.id_lt c hc) hcount

/-! ### The parts of a step -/

theorem warn_eq (s : Engine) (texts : List String) :
    ∃ w, s.warn texts = { s with world := w } ∧ w.clock = s.world.clock := by
  induction texts generalizing s with
  | nil => exact ⟨s.world, rfl, rfl⟩
  | cons text texts ih =>
    obtain ⟨w, heq, hclock⟩ := ih (s.report .warning text)
    exact ⟨w, heq, hclock⟩

theorem warn_echoes (s : Engine) (texts : List String) :
    (s.warn texts).Echoes s ∧ (s.warn texts).store = s.store ∧ (s.warn texts).guard = s.guard := by
  obtain ⟨w, heq, hclock⟩ := s.warn_eq texts
  rw [heq]
  exact ⟨⟨rfl, hclock, rfl, rfl, rfl⟩, rfl, rfl⟩

/-- A request changes the store and reports, and nothing else. -/
theorem ask_eq (s : Engine) (op : Operation) :
    ∃ u, s.ask op = (s.answer op, u) ∧ u.Echoes s ∧ u.store = (s.store.apply s.now op).2 ∧
      u.guard = s.guard := by
  have hwarn := warn_echoes { s with store := (s.store.apply s.now op).2 }
    (s.store.report? op).toList
  exact ⟨_, rfl, hwarn.1.trans ⟨rfl, rfl, rfl, rfl, rfl⟩, hwarn.2.1, hwarn.2.2⟩

theorem storeAfter_some {op : Operation} (h : a.phase.request? = some op) :
    s.storeAfter a = (s.store.apply s.now op).2 := by
  rw [storeAfter, h]

theorem storeAfter_none (h : a.phase.request? = none) : s.storeAfter a = s.store := by
  rw [storeAfter, h]

section

variable (hs : s.IsOrderly) (h : u.Echoes s) (hstore : u.store = s.storeAfter a)

include hs h hstore

theorem becomes_finish (ending : Ending) :
    s.Becomes a ⟨.ended ending, [], u.guard⟩ (u.finish a ending) where
  interpret := h.interpret
  clock := h.clock
  store := hstore
  guard := rfl
  going := by
    intro b hb
    obtain ⟨hmem, hne⟩ := List.mem_filter.mp hb
    rw [h.activities] at hmem
    exact .stays hmem (by simpa using hne)
  stay := fun b hb hne => List.mem_filter.mpr ⟨h.activities ▸ hb, by simpa using hne⟩
  onward := fun _ _ hfate => by cases hfate
  begun := fun _ _ hk => by cases hk
  endings := by
    show ⟨a.id, ending, u.clock⟩ :: u.endings = _
    rw [h.endings, h.clock]
    rfl
  orderly := (hs.of_echoes h).finish a ending
  count := Nat.le_of_eq h.count.symm

theorem becomes_enter (ha : a ∈ s.activities) (phase : Phase) :
    s.Becomes a ⟨.onward a.turn phase, [], u.guard⟩ (u.enter a phase) where
  interpret := h.interpret
  clock := h.clock
  store := hstore
  guard := rfl
  going := by
    intro b hb
    obtain ⟨c, hc, rfl⟩ := List.mem_map.mp hb
    rw [h.activities] at hc
    by_cases hid : c.id = a.id
    · obtain rfl := hs.unique ha hc hid
      rw [if_pos rfl]
      exact .moves rfl rfl
    · rw [if_neg hid]
      exact .stays hc hid
  stay := fun b hb hne => List.mem_map.mpr ⟨b, h.activities ▸ hb, if_neg hne⟩
  onward := by
    intro turn phase' hfate
    obtain ⟨rfl, rfl⟩ := Fate.onward.inj hfate
    exact ⟨_, List.mem_map.mpr ⟨a, h.activities ▸ ha, if_pos rfl⟩, rfl, rfl, rfl⟩
  begun := fun _ _ hk => by cases hk
  endings := h.endings
  orderly := by
    refine (hs.of_echoes h).change
      (f := fun b => if b.id = a.id then { b with phase := phase } else b)
      (fun b => ?_) rfl (Nat.le_refl _)
    split <;> rfl
  count := Nat.le_of_eq h.count.symm

theorem becomes_wait (ha : a ∈ s.activities) (turn : Turn) (phase : Phase) (begun : List Phase) :
    s.Becomes a ⟨.onward turn phase, begun, u.guard⟩ ((u.spawnAll begun).wait a turn phase) := by
  have horderly := (hs.of_echoes h).spawnAll begun
  obtain ⟨new, heq, hnew, hall⟩ := u.spawnAll_eq begun
  have hlt := hs.id_lt a ha
  rw [heq] at horderly ⊢
  exact {
    interpret := h.interpret
    clock := h.clock
    store := hstore
    guard := rfl
    going := by
      intro b hb
      obtain ⟨c, hc, rfl⟩ := List.mem_map.mp hb
      rcases List.mem_append.mp hc with hc | hc
      · rw [h.activities] at hc
        by_cases hid : c.id = a.id
        · rw [if_pos hid]
          exact .moves rfl hid
        · rw [if_neg hid]
          exact .stays hc hid
      · obtain ⟨k, hk, hid, hturn⟩ := hnew c hc
        rw [h.count] at hid
        rw [h.clock] at hturn
        -- the ids of the new activities were not given out before
        have hne : c.id ≠ a.id := by omega
        rw [if_neg hne]
        exact .begins hk hid hturn
    stay := fun b hb hne =>
      List.mem_map.mpr ⟨b, List.mem_append_left _ (h.activities ▸ hb), if_neg hne⟩
    onward := by
      intro turn' phase' hfate
      obtain ⟨rfl, rfl⟩ := Fate.onward.inj hfate
      exact ⟨_, List.mem_map.mpr ⟨a, List.mem_append_left _ (h.activities ▸ ha), if_pos rfl⟩,
        rfl, rfl, rfl⟩
    begun := by
      intro k phase' hk
      obtain ⟨b, hb, hid, hturn, hphase⟩ := hall k phase' hk
      rw [h.count] at hid
      rw [h.clock] at hturn
      exact ⟨b, List.mem_map.mpr ⟨b, List.mem_append_right _ hb, if_neg (by omega)⟩, hid,
        hturn, hphase⟩
    endings := h.endings
    orderly := by
      refine horderly.change
        (f := fun b => if b.id = a.id then
          { b with turn := turn, rank := u.count + begun.length, phase := phase } else b)
        (fun b => ?_) rfl (Nat.le_succ _)
      split <;> rfl
    count := by
      show s.count + begun.length ≤ u.count + begun.length + 1
      rw [h.count]
      omega }

end

/-! ### Each step is a move -/

/-- One engine comes from another one by a move that is allowed. -/
def Moves (s : Engine) (a : Activity) (s' : Engine) : Prop := ∃ m, s.Allows a m ∧ s.Becomes a m s'

section

variable (hs : s.IsOrderly) (ha : a ∈ s.activities)

include hs

theorem moves_quit (h : u.Echoes s) (hstore : u.store = s.storeAfter a) (hguard : u.guard = s.guard)
    (hphase : a.phase.isSweep = false) (hrefused : a.phase.isRun = true → s.Refuses a.phase)
    (ending : Ending) (hblank : ending.isBlank = true) : s.Moves a (u.finish a ending) := by
  refine ⟨⟨.ended ending, [], s.guard⟩, .quits hphase hblank hrefused, ?_⟩
  rw [← hguard]
  exact becomes_finish hs h hstore ending

theorem moves_request {op : Operation} (hphase : a.phase = .request op) :
    s.Moves a (s.request a op) := by
  obtain ⟨u, hask, hechoes, hstore, hguard⟩ := s.ask_eq op
  have hafter : u.store = s.storeAfter a := by rw [hstore, storeAfter_some (by rw [hphase]; rfl)]
  have hquit := moves_quit hs hechoes hafter hguard (by rw [hphase]; rfl)
    (by rw [hphase]; simp [Phase.isRun])
  rw [request, hask]
  cases s.answer op with
  | ok answer => exact hquit (.answer answer) rfl
  | error fault => exact hquit (.refused fault) rfl

theorem moves_judge {id : String} {now : Option Moment} (hphase : a.phase = .judge id now) :
    s.Moves a (s.judge a id now) := by
  obtain ⟨u, hask, hechoes, hstore, hguard⟩ := s.ask_eq (.find id)
  have hafter : u.store = s.storeAfter a := by rw [hstore, storeAfter_some (by rw [hphase]; rfl)]
  have hquit := moves_quit hs hechoes hafter hguard (by rw [hphase]; rfl)
    (by rw [hphase]; simp [Phase.isRun])
  rw [judge, hask]
  cases s.answer (.find id) with
  | error fault => exact hquit (.refused fault) rfl
  | ok answer =>
    cases hflow : answer.flow? with
    | none =>
      simp only [hflow]
      exact hquit .closed rfl
    | some f =>
      cases hnow : (now.getD u.now).toInstant with
      | error e =>
        simp only [hflow, hnow]
        exact hquit (.outOfRange e) rfl
      | ok t =>
        simp only [hflow, hnow]
        cases f.judge t with
        | error e => exact hquit (.outOfRange e) rfl
        | ok v =>
          obtain ⟨hwarn, hwstore, hwguard⟩ := u.warn_echoes (f.warning? v).toList
          exact moves_quit hs (hwarn.trans hechoes) (hwstore.trans hafter) (hwguard.trans hguard)
            (by rw [hphase]; rfl) (by rw [hphase]; simp [Phase.isRun]) _ rfl

/-- An activity that asks nothing of the store ends. -/
theorem moves_end (h : u.Echoes s) (hstore : u.store = s.store) (hguard : u.guard = s.guard)
    (hphase : a.phase.isSweep = false) (hnone : a.phase.request? = none)
    (hrefused : a.phase.isRun = true → s.Refuses a.phase) (ending : Ending)
    (hblank : ending.isBlank = true) : s.Moves a (u.finish a ending) :=
  moves_quit hs h (hstore.trans (storeAfter_none hnone).symm) hguard hphase hrefused ending hblank

theorem moves_lose (hphase : a.phase.isSweep = false) (hnone : a.phase.request? = none)
    (hrefused : a.phase.isRun = true → s.Refuses a.phase) (f : StoredFlow) :
    s.Moves a (s.lose a f) :=
  moves_end hs (u := s.report _ _) ⟨rfl, rfl, rfl, rfl, rfl⟩ rfl rfl hphase hnone hrefused _ rfl

include ha

theorem moves_load {id : String} {trigger : Trigger} {interpret : Interpreter} {goal : Goal}
    (hphase : a.phase = .load id trigger interpret goal) :
    s.Moves a (s.load a id trigger interpret goal) := by
  obtain ⟨u, hask, hechoes, hstore, hguard⟩ := s.ask_eq (.find id)
  have hafter : u.store = s.storeAfter a := by rw [hstore, storeAfter_some (by rw [hphase]; rfl)]
  have hquit := moves_quit hs hechoes hafter hguard (by rw [hphase]; rfl)
    (by rw [hphase]; simp [Phase.isRun])
  rw [load, hask]
  cases hanswer : s.answer (.find id) with
  | error fault => exact hquit (.refused fault) rfl
  | ok answer =>
    cases answer with
    | flow f =>
      refine ⟨_, .loads hphase hanswer, ?_⟩
      rw [← hguard]
      exact becomes_enter hs hechoes hafter ha _
    | done => exact hquit .closed rfl
    | flows fs => exact hquit .closed rfl
    | enabled b => exact hquit .closed rfl
    | runs rs => exact hquit .closed rfl

theorem moves_run {goal : Goal} {rest : Task RunRecord} (hphase : a.phase = .run rest goal) :
    s.Moves a (s.run a goal rest) := by
  have hafter : s.store = s.storeAfter a := (storeAfter_none (by rw [hphase]; rfl)).symm
  cases rest with
  | done r =>
    have hfinish : goal ≠ .look → s.Moves a (s.enter a (.append r goal)) := fun hgoal =>
      ⟨_, .finishes hphase hgoal, becomes_enter hs (.refl s) hafter ha _⟩
    cases goal with
    | look => exact ⟨_, .looks hphase, becomes_finish hs (.refl s) hafter _⟩
    | keep => exact hfinish (fun h => by cases h)
    | sweep f refused => exact hfinish (fun h => by cases h)
  | ask e next =>
    have hask (hne : ∀ n, e ≠ .wait n) :
        s.Becomes a ⟨.onward a.turn (.run (next (s.world.perform e).1) goal), [], s.guard⟩
          ({ s with world := (s.world.perform e).2 }.enter a
            (.run (next (s.world.perform e).1) goal)) :=
      becomes_enter hs (u := { s with world := (s.world.perform e).2 })
        ⟨rfl, s.world.perform_clock hne, rfl, rfl, rfl⟩ hafter ha _
    -- only waiting takes the activity out of its turn, every other effect is answered at once
    have hmoves (hne : ∀ n, e ≠ .wait n) (hrun : s.run a goal (.ask e next) =
        { s with world := (s.world.perform e).2 }.enter a
          (.run (next (s.world.perform e).1) goal)) :
        s.Moves a (s.run a goal (.ask e next)) :=
      ⟨_, .asks hphase hne, hrun ▸ hask hne⟩
    cases e with
    | wait n => exact ⟨_, .waits hphase, becomes_wait hs (.refl s) hafter ha _ _ []⟩
    | now => exact hmoves (fun _ h => by cases h) rfl
    | exchange r => exact hmoves (fun _ h => by cases h) rfl
    | report level text => exact hmoves (fun _ h => by cases h) rfl
    | newId => exact hmoves (fun _ h => by cases h) rfl
    | cookies => exact hmoves (fun _ h => by cases h) rfl
    | keepCookies jar => exact hmoves (fun _ h => by cases h) rfl

omit ha in
theorem moves_append {record : RunRecord} {goal : Goal} (hphase : a.phase = .append record goal) :
    s.Moves a (s.append a record goal) := by
  have hrun : a.phase.isSweep = false := by rw [hphase]; rfl
  by_cases hrefused : ∃ f, goal = .sweep f true
  · obtain ⟨f, rfl⟩ := hrefused
    exact moves_lose hs hrun (by rw [hphase]; rfl) (fun _ => ⟨record, _, hphase, Or.inl ⟨f, rfl⟩⟩) f
  · have hrequest : a.phase.request? = some (.append record) := by
      rw [hphase]
      unfold Phase.request?
      split <;> simp_all
    obtain ⟨u, hask, hechoes, hstore, hguard⟩ := s.ask_eq (.append record)
    have hafter : u.store = s.storeAfter a := by rw [hstore, storeAfter_some hrequest]
    cases hanswer : s.answer (.append record) with
    | ok ans =>
      have hdone : s.Moves a (u.finish a (.record record)) := by
        refine ⟨_, .appends hphase hrequest hanswer, ?_⟩
        rw [← hguard]
        exact becomes_finish hs hechoes hafter _
      unfold append
      split
      · exact absurd ⟨_, rfl⟩ hrefused
      · rw [hask, hanswer]
        exact hdone
    | error fault =>
      unfold append
      split
      · exact absurd ⟨_, rfl⟩ hrefused
      -- the store refuses the record, so the run leaves none
      · have hrefusal : s.Refuses a.phase := ⟨record, goal, hphase, Or.inr ⟨fault, hanswer⟩⟩
        rw [hask, hanswer]
        cases goal with
        | sweep f refused =>
          exact moves_quit hs (u := u.report _ _)
            ⟨hechoes.interpret, hechoes.clock, hechoes.activities,
            hechoes.endings, hechoes.count⟩ hafter hguard hrun (fun _ => hrefusal) _ rfl
        | look => exact moves_quit hs hechoes hafter hguard hrun (fun _ => hrefusal) _ rfl
        | keep => exact moves_quit hs hechoes hafter hguard hrun (fun _ => hrefusal) _ rfl

omit ha in
/-- A sweep that ends gives the guard back. -/
theorem moves_rest (h : u.Echoes s) (hstore : u.store = s.storeAfter a)
    {now : Option Moment} {outages : Outages} {spawned : Bool}
    (hphase : a.phase = .survey now outages spawned) (ending : Ending)
    (hblank : ending.isBlank = true)
    (hdue : s.dueFlows? now outages = some [] ∧ ending = .swept [] ∨
      s.dueFlows? now outages = none ∧ ∀ rs, ending ≠ .swept rs) :
    s.Moves a ({ u with guard := false }.finish a ending) :=
  ⟨_, .rests hphase hblank hdue, becomes_finish hs (u := { u with guard := false })
    ⟨h.interpret, h.clock, h.activities, h.endings, h.count⟩ hstore ending⟩

omit ha in
theorem moves_failSweep (h : u.Echoes s) (hstore : u.store = s.storeAfter a)
    {now : Option Moment} {outages : Outages} {spawned : Bool}
    (hphase : a.phase = .survey now outages spawned) (ending : Ending)
    (hblank : ending.isBlank = true) (hnone : s.dueFlows? now outages = none)
    (hending : ∀ rs, ending ≠ .swept rs) : s.Moves a (u.failSweep a spawned ending) := by
  unfold failSweep
  cases spawned with
  | true =>
    exact moves_rest hs (u := u.report .error "Scheduler tick failed")
      ⟨h.interpret, h.clock, h.activities, h.endings, h.count⟩ hstore hphase .closed rfl
      (Or.inr ⟨hnone, fun _ heq => by cases heq⟩)
  | false => exact moves_rest hs h hstore hphase ending hblank (Or.inr ⟨hnone, hending⟩)

theorem moves_sweep {now : Option Moment} {outages : Outages} {spawned : Bool}
    (hphase : a.phase = .sweep now outages spawned) :
    s.Moves a (s.sweep a now outages spawned) := by
  have hafter : s.store = s.storeAfter a := (storeAfter_none (by rw [hphase]; rfl)).symm
  unfold sweep
  cases hguard : s.guard with
  | true =>
    have hskip : s.Becomes a ⟨.ended (.swept []), [], s.guard⟩
        ((s.report .warning "Previous scheduler tick still running; skipping").finish a
          (.swept [])) :=
      becomes_finish hs (u := s.report .warning _) ⟨rfl, rfl, rfl, rfl, rfl⟩ hafter _
    rw [hguard] at hskip
    exact ⟨_, .skips hphase hguard, hskip⟩
  | false =>
    exact ⟨_, .sweeps hphase hguard, becomes_enter hs (u := { s with guard := true })
      ⟨rfl, rfl, rfl, rfl, rfl⟩ hafter ha _⟩

omit hs ha in
theorem request?_survey {now : Option Moment} {outages : Outages} {spawned : Bool}
    (hphase : a.phase = .survey now outages spawned) (hrequest : a.phase.request? = some .all) :
    outages.list = false := by
  rw [hphase, Phase.request?] at hrequest
  cases hlist : outages.list with
  | false => rfl
  | true =>
    rw [hlist] at hrequest
    cases hrequest

omit hs ha in
theorem dueFlows?_ok {now : Option Moment} {outages : Outages}
    (hlist : outages.list = false) {ans : Answer} (hanswer : s.answer .all = .ok ans)
    {t : Instant} (hnow : (now.getD s.now).toInstant = .ok t) {due : List StoredFlow}
    (hdue : (judgeAll t ans.flowList).1 = .ok due) :
    s.dueFlows? now outages = some due := by
  rw [dueFlows?, hlist, hanswer, hnow]
  exact congrArg Except.toOption hdue

omit hs ha in
theorem foldl_spawnRun (s : Engine) (outages : Outages) (due : List StoredFlow) :
    due.foldl (spawnRun outages) s = s.spawnAll (due.map (s.runPhase outages)) := by
  induction due generalizing s with
  | nil => rfl
  | cons f due ih =>
    have hspawn : spawnRun outages s f = s.spawnNow (s.runPhase outages f) := by
      unfold spawnRun runPhase
      split <;> rfl
    rw [List.foldl_cons, hspawn, ih]
    rfl

theorem moves_spawnRuns (h : u.Echoes s) (hstore : u.store = s.storeAfter a)
    (hguard : u.guard = s.guard) {now : Option Moment} {outages : Outages} {spawned : Bool}
    (hphase : a.phase = .survey now outages spawned)
    (hrequest : a.phase.request? = some .all) {ans : Answer}
    (hanswer : s.answer .all = .ok ans) {t : Instant}
    (hnow : (now.getD s.now).toInstant = .ok t) {due : List StoredFlow}
    (hdue : (judgeAll t ans.flowList).1 = .ok due) :
    s.Moves a (u.spawnRuns a outages due) := by
  unfold spawnRuns
  by_cases hnone : due.isEmpty = true
  · rw [if_pos hnone]
    refine moves_rest hs h hstore hphase (.swept []) rfl (Or.inl ⟨?_, rfl⟩)
    rw [dueFlows?_ok (request?_survey hphase hrequest) hanswer hnow hdue, List.isEmpty_iff.mp hnone]
  · rw [if_neg hnone, foldl_spawnRun]
    refine ⟨_, .surveys hphase hrequest hanswer hnow hdue (fun hnil => hnone (hnil ▸ rfl)), ?_⟩
    -- reports do not change how the runs begin
    have hruns : due.map (u.runPhase outages) = due.map (s.runPhase outages) := by
      unfold runPhase
      rw [h.interpret]
    rw [hruns, h.count, ← hguard]
    exact becomes_wait hs h hstore ha _ _ _

theorem moves_survey {now : Option Moment} {outages : Outages} {spawned : Bool}
    (hphase : a.phase = .survey now outages spawned) :
    s.Moves a (s.survey a now outages spawned) := by
  unfold survey
  by_cases hlist : outages.list = true
  · rw [if_pos hlist]
    have hrequest : a.phase.request? = none := by rw [hphase, Phase.request?, if_pos hlist]
    exact moves_failSweep hs (.refl s) (storeAfter_none hrequest).symm hphase _ rfl (if_pos hlist)
      (fun _ heq => by cases heq)
  · have hrequest : a.phase.request? = some .all := by rw [hphase, Phase.request?, if_neg hlist]
    obtain ⟨u, hask, hechoes, hstore, hguard⟩ := s.ask_eq .all
    have hafter : u.store = s.storeAfter a := by rw [hstore, storeAfter_some hrequest]
    have htime : u.now = s.now := congrArg Instant.toMoment hechoes.clock
    rw [if_neg hlist, hask]
    cases hanswer : s.answer .all with
    | error fault =>
      refine moves_failSweep hs hechoes hafter hphase _ rfl ?_ (fun _ heq => by cases heq)
      rw [dueFlows?, if_neg hlist, hanswer]
      rfl
    | ok ans =>
      simp only [htime]
      cases hnow : (now.getD s.now).toInstant with
      | error e =>
        refine moves_failSweep hs hechoes hafter hphase _ rfl ?_ (fun _ heq => by cases heq)
        rw [dueFlows?, if_neg hlist, hanswer, hnow]
        rfl
      | ok t =>
        -- warnings are given even where a later flow cannot be judged
        obtain ⟨hwarn, hwstore, hwguard⟩ := u.warn_echoes (judgeAll t ans.flowList).2
        have hechoes' := hwarn.trans hechoes
        have hafter' := hwstore.trans hafter
        cases hdue : (judgeAll t ans.flowList).1 with
        | error e =>
          simp only [hdue]
          refine moves_failSweep hs hechoes' hafter' hphase _ rfl ?_ (fun _ heq => by cases heq)
          rw [dueFlows?, if_neg hlist, hanswer, hnow]
          exact congrArg Except.toOption hdue
        | ok due =>
          simp only [hdue]
          exact moves_spawnRuns hs ha hechoes' hafter' (hwguard.trans hguard) hphase
            hrequest hanswer hnow hdue

omit ha in
theorem moves_collect {runs : List Nat} (hphase : a.phase = .collect runs) :
    s.Moves a (s.collect a runs) :=
  ⟨_, .collects hphase, becomes_finish hs (u := { s with guard := false }) ⟨rfl, rfl, rfl, rfl, rfl⟩
    (storeAfter_none (by rw [hphase]; rfl)).symm _⟩

/-- A row of sweeps waits. -/
theorem moves_wait (h : u.Echoes s) (hafter : u.store = s.storeAfter a) (hguard : u.guard = s.guard)
    (hphase : a.phase.isRow = true) (begun : List Phase)
    (hbegun : ∀ p ∈ begun, ∃ outages, p = .sweep none outages true) (turn : Turn) (phase : Phase)
    (hrow : phase.isRow = true) : s.Moves a ((u.spawnAll begun).wait a turn phase) := by
  refine ⟨⟨.onward turn phase, begun, s.guard⟩, .goesOn hphase hrow hbegun, ?_⟩
  rw [← hguard]
  exact becomes_wait hs h hafter ha turn phase begun

omit hs ha in
/-- A row of sweeps that is not asked to end waits, whether or not it begins a sweep. -/
theorem attempt_eq (hstopping : ¬ s.stopping = true) (plan : Plan) :
    ∃ turn phase, phase.isRow = true ∧
    s.attempt a plan =
      (if s.guard then s.report .warning "Previous scheduler tick still running; skipping interval"
        else { s with latest := some s.count }.spawnNow
          (.sweep none plan.outages true)).wait a turn phase := by
  rw [attempt, if_neg hstopping]
  extract_lets w
  split
  · exact ⟨_, _, rfl, rfl⟩
  · split
    · exact ⟨_, _, rfl, rfl⟩
    · exact ⟨_, _, rfl, rfl⟩

theorem moves_attempt {plan : Plan} (hphase : a.phase = .attempt plan) :
    s.Moves a (s.attempt a plan) := by
  have hafter : s.store = s.storeAfter a := (storeAfter_none (by rw [hphase]; rfl)).symm
  have hrow : a.phase.isRow = true := by rw [hphase]; rfl
  by_cases hstopping : s.stopping = true
  · rw [attempt, if_pos hstopping]
    exact moves_wait hs ha (.refl s) hafter rfl hrow [] (fun _ h => by cases h) _ _ rfl
  · obtain ⟨turn, phase, hnext, heq⟩ := attempt_eq hstopping plan
    rw [heq]
    -- a sweep is begun unless one is in flight
    by_cases hguard : s.guard = true
    · rw [if_pos hguard]
      exact moves_wait hs ha (u := s.report .warning _) ⟨rfl, rfl, rfl, rfl, rfl⟩ hafter rfl hrow []
        (fun _ h => by cases h) turn phase hnext
    · rw [if_neg hguard]
      exact moves_wait hs ha (u := { s with latest := some s.count })
        ⟨rfl, rfl, rfl, rfl, rfl⟩ hafter rfl hrow
        [.sweep none plan.outages true] (fun p hmem => ⟨plan.outages, List.mem_singleton.mp hmem⟩)
          turn phase hnext

theorem moves_rested {plan : Plan} (hphase : a.phase = .rest plan) :
    s.Moves a (s.rested a plan) := by
  have hafter : s.store = s.storeAfter a := (storeAfter_none (by rw [hphase]; rfl)).symm
  have hrow : a.phase.isRow = true := by rw [hphase]; rfl
  unfold rested
  split
  · exact moves_wait hs ha (.refl s) hafter rfl hrow [] (fun _ h => by cases h) _ _ rfl
  · exact ⟨⟨.onward a.turn (.attempt plan), [], s.guard⟩, .goesOn hrow rfl (fun _ h => by cases h),
      becomes_enter hs (.refl s) hafter ha _⟩

/-- **Each step of an activity is a move that the engine allows.** -/
theorem step_moves : s.Moves a (s.step a) := by
  unfold step
  cases hphase : a.phase with
  | request op => exact moves_request hs hphase
  | judge id now => exact moves_judge hs hphase
  | load id trigger interpret goal => exact moves_load hs ha hphase
  | run rest goal => exact moves_run hs ha hphase
  | append record goal => exact moves_append hs hphase
  | lose f =>
    exact moves_lose hs (by rw [hphase]; rfl) (by rw [hphase]; rfl)
      (by rw [hphase]; simp [Phase.isRun]) f
  | sweep now outages spawned => exact moves_sweep hs ha hphase
  | survey now outages spawned => exact moves_survey hs ha hphase
  | collect runs => exact moves_collect hs hphase
  | commence plan =>
    refine ⟨⟨.onward a.turn (.attempt { plan with start := s.clock }), [], s.guard⟩,
      .goesOn (by rw [hphase]; rfl) rfl (fun _ h => by cases h), ?_⟩
    exact becomes_enter hs (u := { s with stopping := false }) ⟨rfl, rfl, rfl, rfl, rfl⟩
      (storeAfter_none (by rw [hphase]; rfl)).symm ha _
  | attempt plan => exact moves_attempt hs ha hphase
  | rest plan => exact moves_rested hs ha hphase
  | wind =>
    exact moves_end hs (.refl s) rfl rfl (by rw [hphase]; rfl) (by rw [hphase]; rfl)
      (by rw [hphase]; simp [Phase.isRun]) _ rfl
  | stop =>
    exact moves_end hs (u := { s with stopping := true }) ⟨rfl, rfl, rfl, rfl, rfl⟩ rfl rfl
      (by rw [hphase]; rfl) (by rw [hphase]; rfl) (by rw [hphase]; simp [Phase.isRun]) _ rfl
  | close =>
    exact moves_end hs (.refl s) rfl rfl (by rw [hphase]; rfl) (by rw [hphase]; rfl)
      (by rw [hphase]; simp [Phase.isRun]) _ rfl

end

end Engine

end Cadence
