/-
A run at one of its steps.

A run that is not stopped by the steps before comes to a step, in the state and the
surroundings that these have left.  What the step comes to there tells what becomes of the
run.

* `Execution.Proceeds` — how a run goes on, or ends, by what a step comes to;
* `Execution.Proceeds.of_error`, `Execution.Proceeds.of_stop`, `Execution.Proceeds.of_pass`
  — the three ways;
* **`runSteps_reached`** — every run that gets to a step does so.
-/
import Cadence.Proofs.Run.Sequence

namespace Cadence

/-- A run without steps is not stopped. -/
theorem Execution.not_stopped_nil (c : Context) : ¬Stopped [] ⟨true, [], c⟩ := by
  rintro (h | ⟨p, hp, -⟩)
  · cases h
  · cases hp

/-- What becomes of a run after some outcomes, by what the next step comes to: the run fails
with the step, it is stopped by it, or it goes on with the steps behind it. -/
inductive Execution.Proceeds (client : Http.Client) (s : Step) (ys : List Step)
    (before : List StepOutcome) :
    Except StepFault Json × Context → Execution → Prop
  | failed (fault : StepFault) (c : Context) (time : Calendar.Moment) :
    Proceeds client s ys before (.error fault, c)
      ⟨false, before ++ [⟨s.label, .null, some fault.message, time⟩],
        c.logged s!"[{s.kind}] Error: {fault.message}"⟩
  | stopped {output : Json} {c : Context} {line : String} (stop : s.stopLine? output = some line)
    (time : Calendar.Moment) :
    Proceeds client s ys before (.ok output, c)
      ⟨true, before ++ [⟨s.label, output, none, time⟩], c.logged line⟩
  | passed {output : Json} {c : Context} (pass : s.stopLine? output = none) (time : Calendar.Moment)
    (w : Surroundings) :
    Proceeds client s ys before (.ok output, c)
      (((runSteps client ys c).run w).1.after (before ++ [⟨s.label, output, none, time⟩]))

namespace Execution.Proceeds

variable {client : Http.Client} {s : Step} {ys : List Step} {before : List StepOutcome}
  {result : Except StepFault Json × Context} {output : Json} {c : Context} {e : Execution}

/-- Earlier outcomes come before all others. -/
theorem prepend (h : Proceeds client s ys before result e) (earlier : List StepOutcome) :
    Proceeds client s ys (earlier ++ before) result (e.after earlier) := by
  cases h with
  | failed fault c time =>
    rw [after, ← List.append_assoc]
    exact .failed fault c time
  | stopped stop time =>
    rw [after, ← List.append_assoc]
    exact .stopped stop time
  | passed pass time w =>
    rw [after, after, ← List.append_assoc, ← List.append_assoc]
    exact .passed pass time w

/-- A step that fails ends the run without success. -/
theorem of_error {fault : StepFault} (h : Proceeds client s ys before (.error fault, c) e) :
    e.success = false ∧ ∃ time, e.outcomes = before ++
      [⟨s.label, .null, some fault.message, time⟩] := by
  cases h with
  | failed _ _ time => exact ⟨rfl, time, rfl⟩

/-- A step that decides against going on ends the run in success. -/
theorem of_stop (h : Proceeds client s ys before (.ok output, c) e)
    (stop : s.stopLine? output ≠ none) :
    e.success = true ∧ ∃ time, e.outcomes = before ++ [⟨s.label, output, none, time⟩] := by
  cases h with
  | stopped _ time => exact ⟨rfl, time, rfl⟩
  | passed pass => exact absurd pass stop

/-- After any other step the run goes on. -/
theorem of_pass (h : Proceeds client s ys before (.ok output, c) e)
    (pass : s.stopLine? output = none) :
    ∃ time w, e = ((runSteps client ys c).run w).1.after
      (before ++ [⟨s.label, output, none, time⟩]) := by
  cases h with
  | stopped stop => exact absurd (pass.symm.trans stop) nofun
  | passed _ time w => exact ⟨time, w, rfl⟩

end Execution.Proceeds

section

variable (client : Http.Client) (s : Step) (xs ys : List Step) (c : Context) (w : Surroundings)

/-- A run at its first step. -/
theorem runSteps_first :
    Execution.Proceeds client s ys [] ((s.perform client c).run w).1
      ((runSteps client (s :: ys) c).run w).1 := by
  show Execution.Proceeds client s ys [] _ (Task.run ((s.perform client c).bind _) w).1
  rw [Task.run_bind]
  obtain ⟨⟨result, after⟩, w'⟩ := (s.perform client c).run w
  cases result with
  | error fault => exact .failed fault after _
  | ok output =>
    show Execution.Proceeds client s ys [] _ (Task.run (Task.now.bind _) w').1
    rw [Task.run_bind]
    dsimp only
    cases hstop : s.stopLine? output with
    | some line => exact .stopped hstop _
    | none =>
      show Execution.Proceeds client s ys [] _ (Task.run ((runSteps client ys after).bind _) w').1
      rw [Task.run_bind]
      exact .passed hstop _ w'

/-- **A run that the steps before do not stop gets to the next step, and proceeds by what
this one comes to.** -/
theorem runSteps_reached (h : ¬((runSteps client xs c).run w).1.Stopped xs) :
    let first := (runSteps client xs c).run w
    Execution.Proceeds client s ys first.1.outcomes
      ((s.perform client first.1.context).run first.2).1
      ((runSteps client (xs ++ s :: ys) c).run w).1 := by
  intro first
  have hfirst := (runSteps_first client s ys first.1.context first.2).prepend first.1.outcomes
  rw [List.append_nil] at hfirst
  have hgoes : ¬first.1.stops xs = true := fun hstops => h (Execution.stops_iff.mp hstops)
  rw [runSteps_append, Task.run_bind]
  show Execution.Proceeds client s ys first.1.outcomes _
    (Task.run (ite (first.1.stops xs = true) _ _) first.2).1
  rw [if_neg hgoes, Task.run_bind]
  exact hfirst

end

end Cadence
