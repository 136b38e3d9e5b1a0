/-
What a run that is asked for leaves behind.

With nothing else going on, the steps of an engine are those of the task of the run, so the
engine ends where the task ends in its surroundings.

* `Engine.Only`, `Engine.Reaches` — one activity goes on alone; what an engine comes to by itself;
* `Engine.Only.reaches_done` — a run goes on as its task does;
* `Engine.load_refused` — a flow that the store does not give out is not run, and nothing changes;
* `Engine.load_look`, `Engine.load_keep` — a flow that it gives out is run, and the record
  is looked at or put into the history;
* `Memory.Records`, `Store.kept` — what changes with a record in the history: the history
  and the last run of the flow;
* `Engine.run_flow` — these together.
-/
import Cadence.Proofs.Calendar.Instant
import Cadence.Proofs.Run.FirstError
import Cadence.Proofs.Store.Alike
import Cadence.Proofs.Scheduler.Course

namespace Cadence

open Calendar

/-- Looking for a flow leaves the store as it is. -/
theorem Store.apply_find (s : Store) (now : Moment) (id : String) :
    (s.apply now (.find id)).2 = s := by
  cases s with
  | memory m =>
    rw [apply, show m.apply now (.find id) = (m.find id).map fun f => (.flow f, m) from rfl]
    cases m.find id <;> rfl
  | table t => exact congrArg (Store.table ·.2) (Table.query_run id .flow t)
  | remote => rfl

namespace Engine

/-! ### One activity alone -/

/-- Nothing goes on but one activity, which waits for an instant, and what surrounds it then. -/
structure Only (s : Engine) (a : Activity) (w : Surroundings) : Prop where
  activities : s.activities = [a]
  turn : a.turn = .time w.clock
  le : s.clock ≤ w.clock
  world : { s.world with clock := w.clock } = w

/-- While an activity goes on, an engine comes by itself to another one. -/
def Reaches (s : Engine) (i : Nat) (s' : Engine) : Prop :=
  ∃ n, ∀ fuel, s.runFor [i] (n + fuel) = s'.runFor [i] fuel

variable {s s' s'' : Engine} {i : Nat} {a : Activity} {w : Surroundings} {goal : Goal}

theorem Reaches.refl (s : Engine) (i : Nat) : s.Reaches i s := ⟨0, fun fuel => by rw [Nat.zero_add]⟩

theorem Reaches.trans (h : s.Reaches i s') (h' : s'.Reaches i s'') : s.Reaches i s'' := by
  obtain ⟨n, hn⟩ := h
  obtain ⟨n', hn'⟩ := h'
  exact ⟨n + n', fun fuel => by rw [Nat.add_assoc, hn, hn']⟩

theorem Reaches.exists_fuel (h : s.Reaches i s') : ∃ fuel, s.runFor [i] fuel = s' := by
  obtain ⟨n, hn⟩ := h
  exact ⟨n + 0, hn 0⟩

/-- When the turn of the activity has come, it is in its surroundings and does its next thing. -/
theorem Only.reaches_step (h : s.Only a w) :
    (s.waitUntil w.clock).world = w ∧ s.Reaches a.id ((s.waitUntil w.clock).step a) := by
  constructor
  · show { s.world with clock := (s.waitUntil w.clock).clock } = w
    rw [waitUntil_clock h.le]
    exact h.world
  · refine ⟨1, fun fuel => ?_⟩
    have hgoing : [a.id].any s.isGoing = true := by simp [isGoing, h.activities]
    have hnext : s.next? = some (w.clock, a) := by
      simp [next?, h.activities, h.turn, turnOf?]
    rw [Nat.add_comm, runFor, if_pos hgoing, hnext]

theorem Only.map_eq (h : s.Only a w) (f : Activity → Activity) :
    (s.activities.map fun b => if b.id = a.id then f b else b) = [f a] := by
  rw [h.activities, List.map_singleton, if_pos rfl]

theorem Only.filter_eq (h : s.Only a w) : (s.activities.filter fun b => b.id != a.id) = [] := by
  rw [h.activities]
  simp

/-- An activity that is taken to another phase goes on alone. -/
theorem Only.enter (h : s.Only a w) {w' : Surroundings} (hclock : w'.clock = w.clock)
    (phase : Phase) :
    Only (Engine.enter { s with world := w' } a phase) { a with phase := phase } w' where
  activities := h.map_eq _
  turn := h.turn.trans (congrArg Turn.time hclock.symm)
  le := Int.le_refl _
  world := rfl

theorem Only.enter_self (h : s.Only a w) (hworld : s.world = w) (phase : Phase) :
    (s.enter a phase).Only { a with phase := phase } w := by
  subst hworld
  exact h.enter rfl phase

/-- A run goes on with the answer of the surroundings to whatever it asks, but for waiting. -/
theorem run_ask {e : Effect} {next : e.Answer → Task RunRecord} (he : ∀ n, e ≠ .wait n) :
    s.run a goal (.ask e next) =
      { s with world := (s.world.perform e).2 }.enter a
        (.run (next (s.world.perform e).1) goal) := by
  cases e with
  | wait n => exact absurd rfl (he n)
  | _ => rfl

theorem Only.waitUntil (h : s.Only a w) : (s.waitUntil w.clock).Only a w where
  activities := h.activities
  turn := h.turn
  le := Int.le_of_eq (congrArg Instant.micros (waitUntil_clock h.le))
  world := h.world

/-- One thing that a run asks leads to what it does with the answer of the surroundings. -/
theorem Only.step_ask {e : Effect} {next : e.Answer → Task RunRecord} (h : s.Only a w)
    (hphase : a.phase = .run (.ask e next) goal) :
    ∃ b, b.id = a.id ∧ b.phase = .run (next (w.perform e).1) goal ∧
      ((s.waitUntil w.clock).step a).Only b (w.perform e).2 ∧
      ((s.waitUntil w.clock).step a).store = s.store ∧
      ((s.waitUntil w.clock).step a).endings = s.endings := by
  have hworld := h.reaches_step.1
  have hstep : (s.waitUntil w.clock).step a = (s.waitUntil w.clock).run a goal (.ask e next) := by
    rw [step, hphase]
  rw [hstep]
  by_cases hwait : ∃ n, e = .wait n
  · obtain ⟨n, rfl⟩ := hwait
    have hclock : (s.waitUntil w.clock).clock = w.clock := congrArg Surroundings.clock hworld
    refine ⟨⟨a.id, .time (w.clock.after n), s.count, .run (next ()) goal⟩, rfl, rfl,
      ⟨?_, rfl, ?_, ?_⟩, rfl, rfl⟩
    · refine (h.waitUntil.map_eq fun b => { b with
        turn := .time ((s.waitUntil w.clock).clock.after n), rank := s.count, phase :=
          .run (next ()) goal }).trans ?_
      rw [hclock]
    · exact hclock.symm ▸ Int.le_add_of_nonneg_right (Int.natCast_nonneg n)
    · show { (s.waitUntil w.clock).world with clock := w.clock.after n } = _
      rw [hworld]
      rfl
  · have hne : ∀ n, e ≠ .wait n := fun n heq => hwait ⟨n, heq⟩
    rw [run_ask hne, hworld]
    exact ⟨{ a with phase := .run (next (w.perform e).1) goal }, rfl, rfl,
      h.waitUntil.enter (w.perform_clock hne) _, rfl, rfl⟩

/-- **A run goes on as its task does in the surroundings.** -/
theorem Only.reaches_done {task : Task RunRecord} (h : s.Only a w)
    (hphase : a.phase = .run task goal) :
    ∃ s' b, s.Reaches a.id s' ∧ b.id = a.id ∧ b.phase = .run (.done (task.run w).1) goal ∧
      s'.Only b (task.run w).2 ∧ s'.store = s.store ∧ s'.endings = s.endings := by
  induction task generalizing s a w with
  | done r => exact ⟨s, a, .refl s _, rfl, hphase, h, rfl, rfl⟩
  | ask e next ih =>
    obtain ⟨b, hid, hnext, honly, hstore, hendings⟩ := h.step_ask hphase
    obtain ⟨s', c, hreaches, hc, hdone, hs', hstore', hendings'⟩ := ih _ honly hnext
    rw [hid] at hreaches hc
    exact ⟨s', c, h.reaches_step.2.trans hreaches, hc, hdone, hs', hstore'.trans hstore,
      hendings'.trans hendings⟩

/-- A record that is put into a history ends the activity, or the reason why it is refused does. -/
theorem Only.reaches_kept {r : RunRecord} (h : s.Only a w) (hphase : a.phase = .append r .keep) :
    ∃ s', s.Reaches a.id s' ∧ s'.activities = [] ∧
      s'.endings = ⟨a.id, (match (s.store.apply w.clock.toMoment (.append r)).1 with
        | .ok _ => .record r
        | .error fault => .refused fault), w.clock⟩ :: s.endings ∧
      s'.store = (s.store.apply w.clock.toMoment (.append r)).2 := by
  obtain ⟨hworld, hreaches⟩ := h.reaches_step
  obtain ⟨u, hask, hechoes, hstore, -⟩ := (s.waitUntil w.clock).ask_eq (.append r)
  have hnow : (s.waitUntil w.clock).now = w.clock.toMoment := congrArg (·.clock.toMoment) hworld
  have hanswer : (s.waitUntil w.clock).answer (.append r) =
      (s.store.apply w.clock.toMoment (.append r)).1 := by
    rw [answer, hnow]
    rfl
  rw [hnow] at hstore
  have hstep : (s.waitUntil w.clock).step a =
      u.finish a (match (s.store.apply w.clock.toMoment (.append r)).1 with
      | .ok _ => .record r
      | .error fault => .refused fault) := by
    simp only [step, hphase, append, hask, hanswer]
    cases (s.store.apply w.clock.toMoment (.append r)).1 <;> rfl
  refine ⟨_, hreaches, ?_, ?_, ?_⟩
  · rw [hstep, finish, hechoes.activities]
    exact h.waitUntil.filter_eq
  · rw [hstep]
    show ⟨a.id, _, u.clock⟩ :: u.endings = _
    rw [hechoes.endings, hechoes.clock, show (s.waitUntil w.clock).clock = w.clock
      from congrArg Surroundings.clock hworld]
    rfl
  · rw [hstep]
    exact hstore

/-! ### Loading a flow -/

/-- Looking for a flow changes nothing. -/
theorem ask_find (s : Engine) (id : String) : s.ask (.find id) = (s.answer (.find id), s) := by
  have hreport : s.store.report? (.find id) = none := by
    cases s.store with
    | memory m => rfl
    | table t => rfl
    | remote => rfl
  have hask : s.ask (.find id) =
      (s.answer (.find id), { s with store := (s.store.apply s.now (.find id)).2 }) := by
    show (_, Engine.warn _ (s.store.report? (.find id)).toList) = _
    rw [hreport]
    rfl
  rw [hask, s.store.apply_find]

/-- What an engine is when the one activity that it began has ended, and nothing else has. -/
structure EndsWith (s s' : Engine) (ending : Ending) (time : Instant) (store : Store) : Prop where
  activities : s'.activities = []
  endings : s'.endings = ⟨s.count, ending, time⟩ :: s.endings
  store : s'.store = store

section

variable {id : String} {trigger : Trigger} {interpret : Interpreter} {f : StoredFlow}
  {r : RunRecord}

/-- What is begun where nothing goes on goes on alone and does its first thing at once. -/
theorem spawnNow_reaches (hrest : s.activities = []) (phase : Phase) :
    (s.spawnNow phase).Only ⟨s.count, .time s.clock, s.count, phase⟩ s.world ∧
      (s.spawnNow phase).Reaches s.count
        ((s.spawnNow phase).step ⟨s.count, .time s.clock, s.count, phase⟩) := by
  have honly : (s.spawnNow phase).Only ⟨s.count, .time s.clock, s.count, phase⟩ s.world :=
    ⟨by show s.activities ++ [_] = _; rw [hrest]; rfl, rfl, Int.le_refl _, rfl⟩
  have hsame : (s.spawnNow phase).waitUntil s.world.clock = s.spawnNow phase :=
    waitUntil_of_le (Int.le_refl _)
  have hreaches := honly.reaches_step.2
  rw [hsame] at hreaches
  exact ⟨honly, hreaches⟩

/-- **A flow that the store does not give out is not run**: the request for a run is
refused, and nothing else changes. -/
theorem load_refused (hrest : s.activities = []) {fault : StoreFault}
    (hfind : s.answer (.find id) = .error fault) :
    (s.spawnNow (.load id trigger interpret goal)).Reaches s.count
      { s with
        endings := ⟨s.count, .refused fault, s.clock⟩ :: s.endings
        count := s.count + 1 } := by
  obtain ⟨honly, hreaches⟩ := spawnNow_reaches hrest (.load id trigger interpret goal)
  have hanswer : (s.spawnNow (.load id trigger interpret goal)).answer (.find id) =
      .error fault := hfind
  change Reaches _ _ (Engine.load _ _ id trigger interpret goal) at hreaches
  rw [load, ask_find, hanswer] at hreaches
  change Reaches _ _ (finish _ _ _) at hreaches
  rw [finish, honly.filter_eq, ← hrest] at hreaches
  exact hreaches

/-- A flow that the store gives out is run in the surroundings. -/
theorem load_reaches (trigger : Trigger) (interpret : Interpreter) (goal : Goal)
    (hrest : s.activities = []) (hfind : s.answer (.find id) = .ok (.flow f)) :
    ∃ s' b, (s.spawnNow (.load id trigger interpret goal)).Reaches s.count s' ∧ b.id = s.count ∧
      b.phase = .run (.done ((f.record interpret trigger).run s.world).1) goal ∧
      s'.Only b ((f.record interpret trigger).run s.world).2 ∧ s'.store = s.store ∧
      s'.endings = s.endings := by
  obtain ⟨honly, hreaches⟩ := spawnNow_reaches hrest (.load id trigger interpret goal)
  have hanswer : (s.spawnNow (.load id trigger interpret goal)).answer (.find id) =
      .ok (.flow f) := hfind
  change Reaches _ _ (Engine.load _ _ id trigger interpret goal) at hreaches
  rw [load, ask_find, hanswer] at hreaches
  obtain ⟨s', b, hreaches', hid, hphase, hdone, hstore, hendings⟩ :=
    (honly.enter rfl (.run (f.record interpret trigger) goal)).reaches_done rfl
  exact ⟨s', b, hreaches.trans hreaches', hid, hphase, hdone, hstore, hendings⟩

/-- **A run that is only looked at leaves the store as it is.** -/
theorem load_look (trigger : Trigger) (interpret : Interpreter) (hrest : s.activities = [])
    (hfind : s.answer (.find id) = .ok (.flow f)) :
    ∃ s', (s.spawnNow (.load id trigger interpret .look)).Reaches s.count s' ∧
      s.EndsWith s' (.record ((f.record interpret trigger).run s.world).1)
        ((f.record interpret trigger).run s.world).2.clock s.store := by
  obtain ⟨u, b, hreaches, hid, hphase, hdone, hstore, hendings⟩ :=
    load_reaches trigger interpret .look hrest
    hfind
  obtain ⟨hworld, hstep⟩ := hdone.reaches_step
  rw [hid] at hstep
  rw [step, hphase] at hstep
  refine ⟨_, hreaches.trans hstep, hdone.waitUntil.filter_eq, ?_, hstore⟩
  show ⟨b.id, _, (u.waitUntil _).clock⟩ :: u.endings = _
  rw [hid, hendings, show (u.waitUntil _).clock = _ from congrArg Surroundings.clock hworld]

/-- **A run that is kept changes the store by one request, which puts in the record that the
run ends with.** -/
theorem load_keep (trigger : Trigger) (interpret : Interpreter) (hrest : s.activities = [])
    (hfind : s.answer (.find id) = .ok (.flow f)) :
    let r := ((f.record interpret trigger).run s.world).1
    let time := ((f.record interpret trigger).run s.world).2.clock
    ∃ s', (s.spawnNow (.load id trigger interpret .keep)).Reaches s.count s' ∧
      s.EndsWith s' (match (s.store.apply time.toMoment (.append r)).1 with
        | .ok _ => .record r
        | .error fault => .refused fault) time (s.store.apply time.toMoment (.append r)).2 := by
  intro r time
  obtain ⟨u, b, hreaches, hid, hphase, hdone, hstore, hendings⟩ :=
    load_reaches trigger interpret .keep hrest
    hfind
  -- the run goes over to its record, and then puts it into the history
  obtain ⟨hworld, hstep⟩ := hdone.reaches_step
  rw [hid, step, hphase] at hstep
  have hentered : u.Reaches s.count ((u.waitUntil time).enter b (.append r .keep)) := hstep
  obtain ⟨s', hkeeps, hactivities, hends, hkept⟩ :=
    (hdone.waitUntil.enter_self hworld (.append r .keep)).reaches_kept rfl
  rw [show ((u.waitUntil time).enter b (.append r .keep)).store = s.store from hstore]
    at hends hkept
  rw [show ((u.waitUntil time).enter b (.append r .keep)).endings = s.endings from hendings]
    at hends
  rw [show Activity.id _ = s.count from hid] at hkeeps hends
  exact ⟨s', (hreaches.trans hentered).trans hkeeps, hactivities, hends, hkept⟩

end

end Engine

/-! ### What a run leaves in a store -/

/-- What changes in a memory with a record in the history of a flow: the history, and the
last run of the flow. -/
structure Memory.Records (m : Memory) (f : StoredFlow) (r : RunRecord) (m' : Memory) : Prop where
  limit : m'.limit = m.limit
  names : names m'.flows = names m.flows
  flow : m'.flows.lookup f.id = some (f.ranAt r.finishedAt)
  history : m'.history f.id = keepFirst m.limit (r :: m.history f.id)
  others : ∀ id, id ≠ f.id → m'.flows.lookup id = m.flows.lookup id ∧ m'.history id = m.history id

theorem Memory.append_records {m : Memory} (hs : m.Sound) {f : StoredFlow}
    (hf : m.flows.lookup f.id = some f) {r : RunRecord} (hr : r.flowId = f.id) :
    m.Records f r (m.append r) where
  limit := m.limit_append r
  names := names_append hs.single r
  flow := by
    rw [lookup_append, if_pos hr, hf]
    rfl
  history := by rw [history_append, if_pos hr]
  others := fun id hid => by
    have hne : r.flowId ≠ id := fun heq => hid (heq.symm.trans hr)
    rw [lookup_append, history_append, if_neg hne, if_neg hne]
    exact ⟨rfl, rfl⟩

namespace Store

/-- A record as a store gives it out again: tables read it back from its document. -/
def kept : Store → RunRecord → RunRecord
  | .table _, r => r.filed
  | _, r => r

/-- Whether a store can read again what it has written down of a record, if it does so at all. -/
def recovers : Store → RunRecord → Bool
  | .table t, r => t.codec.reads r.toJson
  | _, _ => true

variable {s : Store} {m : Memory} {now : Moment} {f : StoredFlow} {r : RunRecord}

/-- A flow that a store does not hold is not found. -/
theorem Holds.find_none (h : s.Holds m) (hs : m.Sound) {id : String}
    (hnone : m.flows.lookup id = none) :
    (s.apply now (.find id)).1 = .error (.problem (.flowNotFound id)) := by
  cases s with
  | memory m₀ =>
    obtain rfl : m₀ = m := h
    rw [answer_memory]
    show ((m₀.find id).map _).map _ = _
    rw [Memory.find, hnone]
    rfl
  | table t =>
    show (Table.apply t now (.find id)).1 = _
    rw [show Table.apply t now (.find id) = _ from Table.query_run id .flow t]
    obtain ⟨_, hfind⟩ | ⟨f, hf, _⟩ | ⟨f, _, hf, _⟩ := Table.Holds.find_cases h hs id
    · rw [hfind]
      rfl
    · cases hnone.symm.trans hf
    · cases hnone.symm.trans hf
  | remote => exact h.elim

/-- The latest run that a store gives out, if it can read it, is at the head of the history
that it holds. -/
theorem Holds.latest (now : Moment) (h : s.Holds m) (hs : m.Sound) {id : String}
    (hf : m.flows.lookup id = some f) (hread : s.Reads f.definition.toJson)
    {rest : List RunRecord} (hhistory : m.history id = r :: rest)
    (hr : s.Reads r.flow.toJson) : (s.apply now (.runs id (some 1))).1.toOption =
      if s.recovers r then some (.runs [s.kept r]) else none := by
  cases s with
  | memory m₀ =>
    obtain rfl : m₀ = m := h
    rw [apply_memory_runs, Memory.find_ok.mpr hf, hhistory]
    rfl
  | table t =>
    have hcount : IsCount (some 1) := fun n hn => Option.some_inj.mp hn ▸ by decide
    have hhead : askedPart (some 1) (m.history id) = [r] := by
      rw [hhistory]
      rfl
    have hanswer := Table.Holds.toOption_history h hs (Table.Holds.flowAt_ok h hs hf hread) hcount
    obtain ⟨hfinite, _⟩ :=
      (Bool.and_eq_true _ _).mp (show t.codec.keeps r.flow.toJson = true from hr)
    rw [hhead, List.all_cons, List.all_nil, Bool.and_true, Codec.returns, hfinite, Bool.true_and]
      at hanswer
    exact hanswer
  | remote => exact h.elim

theorem kept_apply (s : Store) (now : Moment) (op : Operation) :
    (s.apply now op).2.kept = s.kept := by
  cases s with
  | memory m =>
    rw [apply]
    cases m.apply now op <;> rfl
  | table t => rfl
  | remote => rfl

theorem recovers_apply (s : Store) (now : Moment) (op : Operation) :
    (s.apply now op).2.recovers = s.recovers := by
  funext r
  cases s with
  | memory m =>
    rw [apply]
    cases m.apply now op <;> rfl
  | table t => exact congrArg (fun c : Codec => c.reads r.toJson) (t.codec_apply now op)
  | remote => rfl

theorem kept_eq_self (h : s.Holds m) :
    s.kept r = r ↔ (∃ m, s = .memory m) ∨ ∀ o ∈ r.steps, o.output.allFinite = true := by
  cases s with
  | memory m₀ => exact iff_of_true rfl (Or.inl ⟨m₀, rfl⟩)
  | table t =>
    rw [kept, RunRecord.filed_eq_self, List.all_eq_true]
    exact ⟨Or.inr, fun hor => hor.resolve_left nofun⟩
  | remote => exact h.elim

end Store

/-! ### Runs that are asked for -/

/-- What holds at the end of a task if the clock shows instants of the calendar holds of its
run in surroundings, up to the end of the calendar. -/
theorem Task.Ends.run_loose {α : Type} {P : α → Prop} {t : Task α} {w : Surroundings}
    (h : t.Ends .loose (fun _ a => P a) w.clock) (hstart : 0 ≤ w.clock.micros)
    (hend : (t.run w).2.clock.micros < calendarMicros) : P (t.run w).1 := by
  induction t generalizing w with
  | done a => exact h
  | ask e next ih =>
    have hle : w.clock ≤ (w.perform e).2.clock := Task.clock_le_run (.ask e .done) w
    have hnow : inCalendar w.clock.micros = true :=
      inCalendar_iff.mpr ⟨hstart, Int.lt_of_le_of_lt (Task.clock_le_run (.ask e next) w) hend⟩
    exact ih _ (h _ _ (w.perform_loose hnow e _)) (Int.le_trans hstart hle) hend

namespace Engine

variable {s : Engine} {m : Memory}

/-- **A run that is asked for comes to a record, which is put into the history once and for
all else leaves the store as it is.**  A flow that the store does not give out, such as one
that is not stored, is not run, and nothing changes.  A flow that it gives out is run as it
is stored: the record tells about the run, and a failed run keeps its first error.  The
store is then asked once, to put the record in; it refuses only if it is a table, and the
record cannot be written down or the limit is beyond the integers of tables.  Otherwise
nothing changes but the history and the last run of the flow, and the latest run of the
flow, if it can be read, is the record, but for numbers that are not finite in the outputs
of its steps if the store is a table. -/
theorem run_flow (hrest : s.activities = []) (hholds : s.store.Holds m) (hsound : m.Sound)
    (hlimit : 1 ≤ m.limit) (hserver : Server.IsNamed s.world.server)
    (hclock : 0 ≤ s.clock.micros) {interpret : Interpreter} (hi : interpret.Explains)
    (htimely : interpret.IsTimely) (id : String) (trigger : Trigger) :
    (m.flows.lookup id = none → s.answer (.find id) = .error (.problem (.flowNotFound id))) ∧
    (∀ fault, s.answer (.find id) = .error fault → ∀ goal, ∃ fuel,
      (s.spawnNow (.load id trigger interpret goal)).runFor [s.count] fuel =
        { s with
          endings := ⟨s.count, .refused fault, s.clock⟩ :: s.endings
          count := s.count + 1 }) ∧
    ∀ f, s.answer (.find id) = .ok (.flow f) →
      let r := ((f.record interpret trigger).run s.world).1
      let time := ((f.record interpret trigger).run s.world).2.clock
      f.id = id ∧ r.Tells f trigger ∧ (∃ b d, s.clock ≤ b ∧ d ≤ time ∧ r.Spans b d) ∧
      (∃ fuel, s.EndsWith ((s.spawnNow (.load id trigger interpret .look)).runFor [s.count] fuel)
        (.record r) time
        s.store) ∧
      (∀ reason, s.store.unwritable? r = some reason → ∃ fuel,
        s.EndsWith ((s.spawnNow (.load id trigger interpret .keep)).runFor [s.count] fuel)
          (.refused (.unwritable reason)) time s.store) ∧
      (s.store.writes r = true → s.store.takes = false → ∃ fuel,
        s.EndsWith ((s.spawnNow (.load id trigger interpret .keep)).runFor [s.count] fuel)
          (.refused .limit) time
          s.store) ∧
      (s.store.writes r = true → s.store.takes = true → ∃ fuel store,
        s.EndsWith ((s.spawnNow (.load id trigger interpret .keep)).runFor [s.count] fuel)
          (.record r) time store ∧
        store = (s.store.apply time.toMoment (.append r)).2 ∧
        ∃ m', store.Holds m' ∧ m.Records f r m' ∧ (time.micros < calendarMicros →
          ∀ now, (store.apply now (.runs id (some 1))).1.toOption =
            if s.store.recovers r then some (.runs [s.store.kept r]) else none)) ∧
      (s.store.kept r = r ↔ (∃ m, s.store = .memory m) ∨
          ∀ o ∈ r.steps, o.output.allFinite = true) := by
  refine ⟨fun hnone => ?_, fun fault hfind goal => (load_refused hrest hfind).exists_fuel,
    fun f hfind => ?_⟩
  · exact hholds.find_none hsound hnone
  intro r time
  obtain ⟨hlookup, hread⟩ := (hholds.find_iff hsound).mp hfind
  obtain rfl : f.id = id := (hsound.flow id f hlookup).own
  obtain ⟨htells, hspans⟩ := f.run_tells hi hserver trigger
  have hflowId : r.flowId = f.id := htells.of.flowId
  obtain ⟨u, hlook, hends⟩ := load_look trigger interpret hrest hfind
  obtain ⟨fuel, rfl⟩ := hlook.exists_fuel
  obtain ⟨v, hkeep, hkept⟩ := load_keep trigger interpret hrest hfind
  obtain ⟨fuel', rfl⟩ := hkeep.exists_fuel
  have happend := hholds.append_eq hsound (hflowId.symm ▸ hlookup) hread time.toMoment
  have hrefused {fault : StoreFault}
      (hfault : (s.store.apply time.toMoment (.append r)).1 = .error fault) :
      s.EndsWith ((s.spawnNow (.load f.id trigger interpret .keep)).runFor [s.count] fuel')
        (.refused fault) time
        s.store := by
    rw [hfault, Store.apply_error hfault] at hkept
    exact hkept
  refine ⟨rfl, htells, hspans, ⟨fuel, hends⟩, fun reason hwhy => ⟨fuel', hrefused ?_⟩,
    fun hwrites htakes => ⟨fuel', hrefused ?_⟩, fun hwrites htakes => ?_, Store.kept_eq_self hholds⟩
  · rw [happend, hwhy]
  · rw [happend, Option.isNone_iff_eq_none.mp hwrites, htakes]
    rfl
  · rw [Option.isNone_iff_eq_none.mp hwrites, htakes] at happend
    simp only [if_true] at happend
    rw [happend] at hkept
    refine ⟨fuel', _, hkept, rfl, m.append r, hholds.of_append hsound happend,
      Memory.append_records hsound hlookup hflowId, fun hend now => ?_⟩
    -- the store can still read the flow, and the record shows the same definition
    have hwf : r.WellFormed ∧ r.IsOf f trigger :=
      Task.Ends.run_loose
        (StoredFlow.record_loose htimely (hsound.flow _ f hlookup).wellFormed.definition trigger _)
        hclock
        hend
    have hnow : time.toMoment.WellFormed := Instant.toMoment_wellFormed
      (inCalendar_iff.mpr ⟨Int.le_trans hclock (Task.clock_le_run _ _), hend⟩)
    have hrecords := Memory.append_records hsound hlookup hflowId
    have hreads := s.store.reads_apply time.toMoment (.append r)
    obtain ⟨rest, hhistory⟩ : ∃ rest, (m.append r).history f.id = r :: rest := by
      refine ⟨(m.history f.id).take (m.limit.toNat - 1), ?_⟩
      rw [hrecords.history, Memory.keepFirst_of_nonneg (by omega), List.take_cons (by omega)]
    have hlatest := (hholds.of_append hsound happend).latest now
      (hsound.append hwf.1 hnow) hrecords.flow
      (hreads.symm ▸ hread) hhistory (hreads.symm ▸ htells.of.flow.symm ▸ hread)
    rw [hlatest, s.store.kept_apply, s.store.recovers_apply]

/-- A run over tables whose fetch is not answered fails with this error, and its record is
the latest run; a flow that is not stored is not run. -/
theorem run_flow_refusedFetch :
    let clock : Instant := ⟨63000000000000000⟩
    let f : Flow :=
      ⟨"a", "", true,
        [.fetch ⟨"x", "http://host/", .get, none, none, none⟩, .log "done" none]⟩
    let world : Surroundings :=
      .start clock (fun _ _ => ⟨0, .error ⟨"ConnectError", ""⟩⟩) fun _ => "run"
    let s : Engine :=
      .start world
        ((Store.table (.empty default (2 : Nat))).run [(clock.toMoment, .create f)]).2
      (interpreter default)
    (∃ fuel, (s.spawnNow (.load "b" .cron s.interpret .keep)).runFor [0] fuel = { s with
      endings := [⟨0, .refused (.problem (.flowNotFound "b")), clock⟩], count := 1 }) ∧
    ∃ fuel store time r, s.EndsWith
        ((s.spawnNow (.load "a" .manual s.interpret .keep)).runFor [0] fuel) (.record r)
        time store ∧
      r.status = .failure ∧ r.steps.map (fun o => (o.label, o.error)) =
        [("x", some "ConnectError")] ∧
      ∀ now, (store.apply now (.runs "a" (some 1))).1 = .ok (.runs [r]) := by
  intro clock f world s
  have hflow : f.WellFormed := by
    refine ⟨by decide, fun s hs => ?_, by decide +kernel⟩
    rcases List.mem_cons.mp hs with rfl | hs
    · exact ⟨by decide, fun _ h => (by cases h), fun _ h => by cases h⟩
    · exact List.mem_singleton.mp hs ▸ True.intro
  have hnow : clock.toMoment.WellFormed := Instant.toMoment_wellFormed (by decide +kernel)
  have hserver : Server.IsNamed world.server := by
    intro earlier r g hg
    cases hg
    exact (by decide : "ConnectError" ≠ "")
  have hasked : Store.AreWellFormed [(clock.toMoment, .create f)] :=
    fun q hq => List.mem_singleton.mp hq ▸ ⟨hnow, hflow⟩
  obtain ⟨m, hholds, hsound, hfollows⟩ :=
    Store.Holds.run (s := .table (.empty default (2 : Nat))) (Table.holds_empty _ _)
    (Memory.empty_sound 2) hasked
  have hlimit : 1 ≤ m.limit := by
    rw [hfollows.limit]
    decide
  have hrun (id : String) (trigger : Trigger) :=
    run_flow (s := s) rfl hholds hsound hlimit hserver (by decide +kernel)
    (interpreter_explains default) (interpreter_isTimely default) id trigger
  constructor
  · have hnone : m.flows.lookup "b" = _ := hfollows.flow "b" none none rfl
    have hunknown :
        (((Store.table (.empty default (2 : Nat))).run [(clock.toMoment, .create f)]).1.edited "b"
        none).isNone = true := by decide +kernel
    rw [Option.isNone_iff_eq_none.mp hunknown, Option.map_none] at hnone
    exact (hrun "b" .cron).2.1 _ ((hrun "b" .cron).1 hnone) .keep
  · -- what the store gives out, and what its run comes to
    have hwhole : ((s.answer (.find "a")).toOption.bind Answer.flow?).map (fun g =>
        let r := ((g.record (interpreter default) .manual).run world)
        (r.1.status, r.1.steps.map fun o => (o.label, o.error),
          r.1.steps.all fun o => o.output.allFinite,
          decide (r.2.clock.micros < calendarMicros))) =
        some (.failure, [("x", some "ConnectError")], true, true) := by decide +kernel
    obtain ⟨g, hg, hparts⟩ := Option.map_eq_some_iff.mp hwhole
    simp only [Prod.mk.injEq] at hparts
    obtain ⟨hstatus, hsteps, hfinite, hend⟩ := hparts
    obtain ⟨ans, hans, hanswer⟩ := Option.bind_eq_some_iff.mp hg
    cases ans with
    | flow g' =>
      obtain rfl : g' = g := Option.some_inj.mp hanswer
      obtain ⟨_, _, _, _, _, _, hkeep, hsame⟩ :=
        (hrun "a" .manual).2.2 g' (toOption_eq_some.mp hans)
      obtain ⟨fuel, store, hends, _, _, _, _, hlatest⟩ := hkeep rfl (by decide +kernel)
      refine ⟨fuel, store, _, _, hends, hstatus, hsteps, fun now => toOption_eq_some.mp ?_⟩
      rw [hlatest (of_decide_eq_true hend) now, hsame.mpr (Or.inr (List.all_eq_true.mp hfinite))]
      rfl
    | _ => cases hanswer

end Engine

end Cadence
