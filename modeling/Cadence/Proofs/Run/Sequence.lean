/-
Runs one after another.

A run of steps in a row is a run of the first ones and then, unless that one was stopped, a
run of the others from what it left behind.

* `Execution.Stopped` — a step failed or decided against going on;
* `runSteps_append` — runs as tasks;
* `runSteps_append_run` — runs in surroundings: requests, reports, clock and cookies are
  those of the two runs.
-/
import Cadence.Proofs.Run.Shape

namespace Cadence

namespace Execution

/-- A step failed or decided against going on. -/
def Stopped (steps : List Step) (e : Execution) : Prop :=
  e.success = false ∨ ∃ p ∈ e.performed steps, p.1.decides = true ∧ p.2.output = .bool false

/-- Whether a step failed or gave a line with which a run ends. -/
def stops (steps : List Step) (e : Execution) : Bool :=
  !e.success || (e.performed steps).any fun p => (p.1.stopLine? p.2.output).isSome

/-- An execution after the outcomes of another one. -/
def after (outcomes : List StepOutcome) (e : Execution) : Execution :=
  { e with outcomes := outcomes ++ e.outcomes }

theorem stops_iff {steps : List Step} {e : Execution} : e.stops steps = true ↔ e.Stopped steps := by
  have hline (p : Step × StepOutcome) :
      (p.1.stopLine? p.2.output).isSome = true ↔ p.1.decides = true ∧ p.2.output = .bool false := by
    rw [Option.isSome_iff_ne_none, Ne, Step.stopLine?_eq_none_iff, not_not]
  rw [stops, Bool.or_eq_true, Bool.not_eq_true', List.any_eq_true]
  simp only [hline]
  rfl

theorem stops_cons {s : Step} {rest : List Step} {o : StepOutcome} {e : Execution}
    (h : s.stopLine? o.output = none) :
    stops (s :: rest) { e with outcomes := o :: e.outcomes } = e.stops rest := by
  unfold stops performed
  rw [List.zip_cons_cons, List.any_cons, h]
  rfl

end Execution

/-- **Steps in a row are run as the first ones and then, unless these stop, the others.** -/
theorem runSteps_append (client : Http.Client) (xs ys : List Step) (c : Context) :
    runSteps client (xs ++ ys) c = (runSteps client xs c).bind fun e =>
      if e.stops xs then .done e else (runSteps client ys e.context).bind fun e' =>
        .done (e'.after e.outcomes) := by
  induction xs generalizing c with
  | nil => exact (Task.bind_done _).symm
  | cons s rest ih =>
    show (s.perform client c).bind _ = ((s.perform client c).bind _).bind _
    rw [Task.bind_assoc]
    congr 1
    funext ⟨result, c⟩
    show Task.now.bind _ = (Task.now.bind _).bind _
    rw [Task.bind_assoc]
    congr 1
    funext time
    cases result with
    | error fault => rfl
    | ok output =>
      simp only
      cases hstop : s.stopLine? output with
      | some line =>
        refine (if_pos ?_).symm
        rw [Execution.stops, Execution.performed_one, List.any_cons, hstop]
        rfl
      | none =>
        show (runSteps client (rest ++ ys) c).bind _ = ((runSteps client rest c).bind _).bind _
        rw [ih, Task.bind_assoc, Task.bind_assoc]
        congr 1
        funext e
        -- the step that is done before changes nothing but the outcomes
        show _ = ite (Execution.stops (s :: rest) { e with outcomes := _ :: e.outcomes } = true) _ _
        rw [Execution.stops_cons hstop]
        cases e.stops rest with
        | true => rfl
        | false => exact Task.bind_assoc _ _ _

/-- **A run of steps in a row is a run of the first ones, and then a run of the others
unless a step failed or decided against going on.** What the second run finds of the state
of the run and of its surroundings is what the first one left. -/
theorem runSteps_append_run (client : Http.Client) (xs ys : List Step) (c : Context)
    (w : Surroundings) :
    let first := (runSteps client xs c).run w
    let second := (runSteps client ys first.1.context).run first.2
    (first.1.Stopped xs → (runSteps client (xs ++ ys) c).run w = first) ∧
    (¬first.1.Stopped xs →
      (runSteps client (xs ++ ys) c).run w = (second.1.after first.1.outcomes, second.2)) := by
  intro first second
  have hrun : (runSteps client (xs ++ ys) c).run w =
      if first.1.stops xs then first else (second.1.after first.1.outcomes, second.2) := by
    rw [runSteps_append, Task.run_bind]
    show Task.run (ite (first.1.stops xs = true) _ _) first.2 = _
    cases first.1.stops xs with
    | true => rfl
    | false => exact Task.run_bind _ _ _
  rw [hrun]
  constructor
  · intro h
    rw [if_pos (Execution.stops_iff.mpr h)]
  · intro h
    rw [if_neg fun hstops => h (Execution.stops_iff.mp hstops)]

end Cadence
