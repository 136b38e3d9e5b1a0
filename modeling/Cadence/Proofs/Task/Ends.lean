/-
What tasks end with.

A task is a tree of effects, and what can be said of its end is said by recursion on the
tree: for every way in which the effects on the path may be answered.

* `Timing` — how an effect may be answered at an instant, and at which instant the task goes on;
  `Timing.loose` leaves the time open, and `Timing.flowing` lets it pass anywhere;
* `Task.Ends` — a task that goes on at an instant ends with a value, and at an instant, that have a
  property;
* `StoredFlow.record_loose`, `StoredFlow.record_flowing` — what becomes of a run in either case.
-/
import Cadence.Proofs.Run.Reading
import Cadence.Run.Execution
import Cadence.Task.Surroundings

namespace Cadence

open Calendar

/-! ### Tasks -/

/-- How an effect may be answered at an instant, and the instant at which the task goes on. -/
abbrev Timing := (e : Effect) → Instant → e.Answer → Instant → Prop

/-- A clock shows an instant of the calendar, and otherwise anything may be answered. -/
def Timing.loose : Timing
  | .now, _, x, _ => inCalendar (Instant.micros x) = true
  | _, _, _, _ => True

/-- The clock shows the time, and time may pass at every effect, before and after the answer. -/
def Timing.flowing : Timing
  | .now, c, x, d => c ≤ (show Instant from x) ∧ (show Instant from x) ≤ d
  | _, c, _, d => c ≤ d

theorem Timing.le_of_flowing {e : Effect} {c d : Instant} {x : e.Answer}
    (h : Timing.flowing e c x d) :
    c ≤ d := by
  cases e with
  | now => exact Int.le_trans h.1 h.2
  | _ => exact h

/-- Surroundings answer a loose effect loosely. -/
theorem Surroundings.perform_loose (s : Surroundings) (h : inCalendar s.clock.micros = true)
    (e : Effect) (d : Instant) : Timing.loose e s.clock (s.perform e).1 d := by
  cases e with
  | now => exact h
  | _ => trivial

/-- After the answer of surroundings time may pass. -/
theorem Surroundings.perform_flowing (s : Surroundings) (e : Effect) {d : Instant}
    (h : s.clock ≤ d) :
    Timing.flowing e s.clock (s.perform e).1 d := by
  cases e with
  | now => exact ⟨Int.le_refl _, h⟩
  | _ => exact h

theorem Surroundings.perform_clock (s : Surroundings) {e : Effect} (h : ∀ n, e ≠ .wait n) :
    (s.perform e).2.clock = s.clock := by
  cases e with
  | wait micros => exact absurd rfl (h micros)
  | _ => rfl

/-- However its effects are answered, a task that goes on at an instant ends at an instant
and with a value that have a property. -/
def Task.Ends {α : Type} (R : Timing) (P : Instant → α → Prop) : Task α → Instant → Prop
  | .done a, c => P c a
  | .ask e next, c => ∀ x d, R e c x d → (next x).Ends R P d

namespace Task.Ends

variable {α β : Type} {R : Timing} {P P' : Instant → α → Prop} {Q : Instant → β → Prop}
  {c : Instant}

theorem mono (hP : ∀ d a, P d a → P' d a) {t : Task α} (h : t.Ends R P c) : t.Ends R P' c := by
  induction t generalizing c with
  | done a => exact hP c a h
  | ask e next ih => exact fun x d hx => ih x (h x d hx)

/-- A task and then another one. -/
theorem bind {t : Task α} {f : α → Task β} (h : t.Ends R P c)
    (hf : ∀ d a, P d a → (f a).Ends R Q d) : (t.bind f).Ends R Q c := by
  induction t generalizing c with
  | done a => exact hf c a h
  | ask e next ih => exact fun x d hx => ih x (h x d hx)

/-- Of any task it can be said that it ends. -/
theorem trivial (t : Task α) : t.Ends R (fun _ _ => True) c := by
  induction t generalizing c with
  | done a => exact True.intro
  | ask e next ih => exact fun x d _ => ih x

/-- No task ends before it began. -/
theorem le (hR : ∀ {e c x d}, R e c x d → c ≤ d) (t : Task α) : t.Ends R (fun d _ => c ≤ d) c := by
  -- the induction needs any later instant at which the task may have got so far
  have hfrom : ∀ b, c ≤ b → t.Ends R (fun d _ => c ≤ d) b := by
    induction t with
    | done a => exact fun b hb => hb
    | ask e next ih => exact fun b hb x d hx => ih x d (Int.le_trans hb (hR hx))
  exact hfrom c (Int.le_refl _)

theorem now_loose : Task.now.Ends .loose (fun _ t => inCalendar t.micros = true) c :=
  fun _ _ hx => hx

theorem now_flowing : Task.now.Ends .flowing (fun d t => c ≤ t ∧ t ≤ d) c :=
  fun _ _ hx => hx

end Task.Ends

/-! ### Interpreters -/

/-- What an interpreter comes to, with moments of the calendar. -/
def Interpretation.IsTimely : Interpretation → Prop
  | .finished e => ∀ o ∈ e.outcomes, o.time.WellFormed
  | .broken _ _ => True

/-- An interpreter that only notes down moments of the calendar. -/
def Interpreter.IsTimely (interpret : Interpreter) : Prop :=
  ∀ steps context c, (interpret steps context).Ends .loose (fun _ i => i.IsTimely) c

theorem runSteps_isTimely (client : Http.Client) (steps : List Step) (context : Context)
    (c : Instant) :
    (runSteps client steps context).Ends .loose
      (fun _ e => ∀ o ∈ e.outcomes, o.time.WellFormed) c := by
  induction steps generalizing context c with
  | nil => exact fun _ h => (by cases h)
  | cons s rest ih =>
    refine Task.Ends.bind (Task.Ends.trivial _) fun d r _ => ?_
    obtain ⟨result, context'⟩ := r
    refine Task.Ends.bind Task.Ends.now_loose fun d' time htime => ?_
    have hmoment : time.toMoment.WellFormed := Instant.toMoment_wellFormed htime
    cases result with
    | error fault =>
      intro _ _ _ o ho
      obtain rfl := List.mem_singleton.mp ho
      exact hmoment
    | ok output =>
      simp only
      cases s.stopLine? output with
      | some line =>
        intro o ho
        obtain rfl := List.mem_singleton.mp ho
        exact hmoment
      | none =>
        refine Task.Ends.bind (ih context' d') fun d'' e he => ?_
        intro o ho
        rcases List.mem_cons.mp ho with rfl | ho
        · exact hmoment
        · exact he o ho

/-- **The interpreter that runs the steps notes down moments of the calendar.** -/
theorem interpreter_isTimely (client : Http.Client) : (interpreter client).IsTimely :=
  fun steps context c =>
    Task.Ends.bind (runSteps_isTimely client steps context c) fun _ _ he => he

theorem Interpretation.settle_isTimely (flowId : String) {i : Interpretation}
    (h : i.IsTimely) (c : Instant) :
    (i.settle flowId).Ends .loose (fun _ e => ∀ o ∈ e.outcomes, o.time.WellFormed) c := by
  cases i with
  | finished e => exact h
  | broken text context =>
    refine Task.Ends.bind (Task.Ends.trivial _) fun d _ _ => ?_
    refine Task.Ends.bind Task.Ends.now_loose fun _ time htime => ?_
    intro o ho
    obtain rfl := List.mem_singleton.mp ho
    exact Instant.toMoment_wellFormed htime

/-! ### Runs -/

/-- What a record has from the flow and the trigger of its run. -/
structure RunRecord.IsOf (r : RunRecord) (f : StoredFlow) (trigger : Trigger) : Prop where
  flowId : r.flowId = f.id
  flow : r.flow = f.definition
  trigger : r.trigger = trigger

/-- **A run ends with a well-formed record of its flow, wherever time passes.** -/
theorem StoredFlow.record_loose {interpret : Interpreter} (hi : interpret.IsTimely) {f : StoredFlow}
    (hf : f.definition.WellFormed) (trigger : Trigger) (c : Instant) :
    (f.record interpret trigger).Ends .loose (fun _ r => r.WellFormed ∧ r.IsOf f trigger) c := by
  refine Task.Ends.bind Task.Ends.now_loose fun d started hstarted => ?_
  refine Task.Ends.bind (hi _ _ d) fun d' i hi' => ?_
  refine Task.Ends.bind (i.settle_isTimely f.id hi' d') fun d'' e he => ?_
  refine Task.Ends.bind Task.Ends.now_loose fun d''' finished hfinished => ?_
  intro id _ _
  exact ⟨⟨Instant.toMoment_wellFormed hstarted, Instant.toMoment_wellFormed hfinished, he, hf⟩,
    ⟨rfl, rfl, rfl⟩⟩

/-- What a record of a run that began at one instant and ended at another says about its time. -/
structure RunRecord.Spans (r : RunRecord) (c d : Instant) : Prop where
  started : r.startedAt = c.toMoment
  finished : r.finishedAt = d.toMoment
  le : c ≤ d

/-- **A run notes down when it began and when it ended, and it ends no earlier.** -/
theorem StoredFlow.record_flowing (interpret : Interpreter) (f : StoredFlow)
    (trigger : Trigger) (c : Instant) :
    (f.record interpret trigger).Ends .flowing (fun e r => ∃ b d, c ≤ b ∧ d ≤ e ∧
      r.Spans b d) c := by
  refine Task.Ends.bind Task.Ends.now_flowing fun d₁ b hb => ?_
  refine Task.Ends.bind (Task.Ends.le Timing.le_of_flowing _) fun d₂ i h₂ => ?_
  refine Task.Ends.bind (Task.Ends.le Timing.le_of_flowing _) fun d₃ e h₃ => ?_
  refine Task.Ends.bind Task.Ends.now_flowing fun d₄ d hd => ?_
  intro id e' h₄
  exact ⟨b, d, hb.1, Int.le_trans hd.2 h₄, rfl, rfl,
    Int.le_trans hb.2 (Int.le_trans h₂ (Int.le_trans h₃ hd.1))⟩

end Cadence
