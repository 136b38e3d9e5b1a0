/-
Every run comes to a record, and a failed one keeps its first error.

An interpreter that breaks down leaves no execution of its own; what it had put into the log
stays there, and the breakdown counts as one failed step.

* `Interpretation.Explains` — an interpreter ran the steps, or broke down in words after
  lines in the log;
* `Interpreter.Explains` — it does so whatever happens, as the interpreter that runs the steps does;
* `Execution.KeepsError` — only the last outcome of a failed execution has an error, and the
  log ends with it;
* `RunRecord.Tells` — what every record tells about its run;
* `StoredFlow.run_tells` — a run comes to such a record.
-/
import Cadence.Proofs.Run.Shape

namespace Cadence

open Calendar

/-! ### Interpreters -/

/-- The steps were run, or there was a breakdown after lines in the log. A breakdown is
worded as any failure is: by its text, or else by its kind. -/
inductive Interpretation.Explains (steps : List Step) (before : Context) :
    Interpretation → Prop where
  | finished {e : Execution} (shape : e.HasShape steps before) : Explains steps before (.finished e)
  | broken {f : Http.Failure} {after : Context} (named : f.IsNamed)
      (log : before.log <+: after.log) :
      Explains steps before (.broken f.message after)

/-- However the other side behaves, an interpreter runs the steps or breaks down in words. -/
def Interpreter.Explains (interpret : Interpreter) : Prop :=
  ∀ steps before c, (interpret steps before).Ends .named (fun _ i => i.Explains steps before) c

theorem interpreter_explains (client : Http.Client) : (interpreter client).Explains :=
  fun steps before c => Task.Ends.bind (runSteps_ends client steps before c) fun _ _ he =>
    .finished he

/-! ### Executions -/

/-- An execution has no success just if an outcome has an error. Then it is the last one, it
is put into words, and these end the log. -/
structure Execution.KeepsError (e : Execution) : Prop where
  failed : e.success = false ↔ ∃ o ∈ e.outcomes, o.error ≠ none
  last : e.success = false → ∃ earlier o text front, e.outcomes = earlier ++ [o] ∧
    (∀ p ∈ earlier, p.error = none) ∧ o.error = some text ∧ text ≠ "" ∧
    e.context.log.getLast? = some (front ++ text)

/-- The last step performed has the last outcome. -/
theorem Execution.HasShape.getLast?_outcomes {steps : List Step} {before : Context}
    {e : Execution} (h : e.HasShape steps before) {p : Step × StepOutcome}
    (hp : (e.performed steps).getLast? = some p) :
    e.outcomes.getLast? = some p.2 := by
  have hle : e.outcomes.length ≤ steps.length := by simpa using h.labels.length_le
  have hsnd : (e.performed steps).map Prod.snd = e.outcomes := List.map_snd_zip hle
  rw [← hsnd, List.getLast?_map, hp]
  rfl

theorem Execution.HasShape.keepsError {steps : List Step} {before : Context} {e : Execution}
    (h : e.HasShape steps before) : e.KeepsError where
  failed := h.success
  last := by
    intro hfailed
    obtain ⟨p, text, hp, herror, hline⟩ := h.failure hfailed
    obtain ⟨earlier, hsplit⟩ := List.getLast?_eq_some_iff.mp (h.getLast?_outcomes hp)
    refine ⟨earlier, p.2, text, s!"[{p.1.kind}] Error: ", hsplit, ?_, herror, ?_, ?_⟩
    · have herrors := h.errors
      rwa [hsplit, List.dropLast_concat] at herrors
    · rintro rfl
      exact h.words p.2 (hsplit ▸ List.mem_append_right _ List.mem_cons_self) herror
    · rw [hline]
      simp [String.append_assoc, toString]

/-- A breakdown is kept as the error of one step. -/
theorem Execution.keepsError_broken {text : String} (htext : text ≠ "") (time : Moment)
    (c : Context) :
    KeepsError ⟨false, [⟨"execution", .null, some text, time⟩], c.logged text⟩ where
  failed := ⟨fun _ => ⟨_, List.mem_singleton_self _, Option.some_ne_none _⟩, fun _ => rfl⟩
  last := fun _ => ⟨[], _, text, "", rfl, nofun, rfl, htext, by
    rw [Context.logged, List.getLast?_concat, String.empty_append]⟩

/-- **An execution keeps its first error and goes on with the log, also after a breakdown.** -/
theorem Interpretation.settle_keepsError {steps : List Step} {before : Context} {i : Interpretation}
    (h : i.Explains steps before) (flowId : String) (c : Instant) :
    (i.settle flowId).Ends .named (fun _ e => before.log <+: e.context.log ∧ e.KeepsError) c := by
  cases h with
  | finished shape => exact ⟨shape.log, shape.keepsError⟩
  | broken named log =>
    refine Task.Ends.bind (Task.Ends.trivial _) fun _ _ _ => ?_
    refine Task.Ends.bind (Task.Ends.trivial _) fun _ time _ => ?_
    exact ⟨log.trans (Context.prefix_logged _ _),
      Execution.keepsError_broken (Http.Failure.message_ne named) _ _⟩

/-! ### Records -/

/-- What the record of a run of a flow tells: the flow as it was and what set it off, when
it began, and in its last outcome and at the end of its log the error that it failed with,
if it failed. -/
structure RunRecord.Tells (r : RunRecord) (f : StoredFlow) (trigger : Trigger) : Prop where
  of : r.IsOf f trigger
  first : r.log.head? = some s!"[system] Triggered by {trigger.word} at {r.startedAt.isoText}"
  failed : r.status = .failure ↔ ∃ o ∈ r.steps, o.error ≠ none
  last : r.status = .failure → ∃ earlier o text front, r.steps = earlier ++ [o] ∧
    (∀ p ∈ earlier, p.error = none) ∧ o.error = some text ∧ text ≠ "" ∧
    r.log.getLast? = some (front ++ text)

theorem StoredFlow.record_tells {interpret : Interpreter} (hi : interpret.Explains) (f : StoredFlow)
    (trigger : Trigger) (c : Instant) :
    (f.record interpret trigger).Ends .named (fun _ r => r.Tells f trigger) c := by
  refine Task.Ends.bind (Task.Ends.trivial _) fun _ started _ => ?_
  refine Task.Ends.bind (hi _ _ _) fun _ i hi' => ?_
  refine Task.Ends.bind (i.settle_keepsError hi' f.id _) fun _ e he => ?_
  obtain ⟨hlog, hkeeps⟩ := he
  refine Task.Ends.bind (Task.Ends.trivial _) fun _ finished _ => ?_
  intro id _ _
  have hstatus : (if e.success then Status.success else .failure) = .failure ↔
      e.success = false := by
    cases e.success <;> simp
  refine ⟨⟨rfl, rfl, rfl⟩, ?_, hstatus.trans hkeeps.failed, fun h => hkeeps.last (hstatus.mp h)⟩
  -- nothing is taken away from the log, which began with this line
  obtain ⟨rest, hrest⟩ := hlog
  show e.context.log.head? = _
  rw [← hrest]
  rfl

/-- What holds at the end of a task wherever time passes holds of its run in surroundings. -/
theorem Task.Ends.run_flowing {α : Type} {P : Instant → α → Prop} {t : Task α} {w : Surroundings}
    (h : t.Ends .flowing P w.clock) : P (t.run w).2.clock (t.run w).1 := by
  induction t generalizing w with
  | done a => exact h
  | ask e next ih =>
    refine ih _ (h _ _ ?_)
    cases e with
    | now => exact ⟨Int.le_refl _, Int.le_refl _⟩
    | wait micros => exact Int.le_add_of_nonneg_right (Int.natCast_nonneg micros)
    | _ => exact Int.le_refl _

theorem Task.clock_le_run {α : Type} (t : Task α) (w : Surroundings) :
    w.clock ≤ (t.run w).2.clock :=
  (Task.Ends.le Timing.le_of_flowing t).run_flowing

/-- **A run comes to a record that tells about it.** Whatever the flow, the trigger, the
other side and the interpreter, as long as failures are of some kind: the record says when
the run began and when it ended, which is not earlier, and keeps the first error. -/
theorem StoredFlow.run_tells {interpret : Interpreter} (hi : interpret.Explains) {w : Surroundings}
    (hw : Server.IsNamed w.server) (f : StoredFlow) (trigger : Trigger) :
    let r := ((f.record interpret trigger).run w).1
    r.Tells f trigger ∧
      ∃ b d, w.clock ≤ b ∧ d ≤ ((f.record interpret trigger).run w).2.clock ∧ r.Spans b d :=
  ⟨(f.record_tells hi trigger w.clock).run_named hw,
    (f.record_flowing interpret trigger w.clock).run_flowing⟩

/-- A fetch that is answered comes before a breakdown, which the record keeps. -/
example :
    let f : StoredFlow :=
      .new ⟨"a", "", true, [.fetch ⟨"x", "http://host/", .get, none, none, none⟩]⟩ ⟨0, none⟩
    let world : Surroundings := .start ⟨0⟩ (fun _ _ => ⟨0, .ok ⟨200, [], [0x37]⟩⟩) fun _ => "run"
    let interpret : Interpreter := fun steps c => do
      return .broken "boom" (← runSteps default steps c).context
    let r := ((f.record interpret .cron).run world).1
    (r.status, r.steps.map fun o => (o.label, o.error), r.log) =
      (.failure, [("execution", some "boom")],
        ["[system] Triggered by cron at 0001-01-01T00:00:00+00:00",
        "[fetch:x] GET http://host/ -> 200", "boom"]) := by decide +kernel

end Cadence
