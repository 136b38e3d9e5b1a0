/-
Results of runs that can be written.

What a fetch keeps of a response was read, so no integer in it has too many digits to be
written.  Hence no result of a run has one, whatever the other side answers, as long as the
run begins without any.

* `Fetch.isShort_output` — what is kept of a response can be written;
* `Step.perform_short` — a step keeps the results so;
* **`runSteps_short`** — and so does a run.
-/
import Cadence.Proofs.Json.Short
import Cadence.Proofs.Run.FirstError

namespace Cadence

open Calendar Json

/-! ### Responses -/

/-- What a body is read as can be written. -/
theorem Http.Response.isShort_value {r : Http.Response} {v : Json} (h : r.value = .ok v) :
    v.isShort = true := by
  unfold value at h
  split at h
  · next v' hv =>
    obtain rfl := Except.ok.inj h
    obtain ⟨s, -, hread⟩ := Option.bind_eq_some_iff.mp hv
    exact isShort_readWith (toOption_eq_some.mp hread)
  · obtain ⟨s, -, rfl⟩ := map_eq_ok.mp h
    rfl

/-- What is kept of a response can be written. -/
theorem Fetch.isShort_output {r : Http.Response} {v : Json} (h : Fetch.output r = .ok v) :
    v.isShort = true := by
  obtain ⟨body, hbody, hv⟩ := bind_eq_ok.mp h
  have hshort := Http.Response.isShort_value (mapError_eq_ok.mp hbody)
  split at hv
  · next hstatus =>
    obtain rfl := Except.ok.inj hv
    show ((Json.int r.status).isShort && (membersShort _ && (body.isShort && true))) = true
    rw [hstatus, hshort, membersShort_eq, List.all_map]
    simp [Function.comp_def, isShort]
  · cases hv

/-! ### Steps -/

section

variable {R : Timing} {client : Http.Client} {c : Context} {now : Instant}

theorem Fetch.perform_short (f : Fetch) (h : membersShort c.results = true) :
    (f.perform client c).Ends R (fun _ x => membersShort x.2.results = true) now := by
  unfold Fetch.perform
  split
  · exact h
  · exact h
  · refine Task.Ends.bind (Task.Ends.trivial _) fun _ x _ => ?_
    obtain ⟨result, cookies⟩ := x
    cases result with
    | error e => cases f.timeout <;> exact h
    | ok response =>
      cases hv : Fetch.output response with
      | error e =>
        simp only [hv]
        exact h
      | ok v =>
        simp only [hv]
        exact membersShort_put h (Fetch.isShort_output hv)

theorem Notice.perform_results (n : Notice) :
    (n.perform client c).Ends R (fun _ x => x.2.results = c.results) now := by
  unfold Notice.perform
  split
  · rfl
  · refine Task.Ends.bind (Task.Ends.trivial _) fun _ x _ => ?_
    obtain ⟨result, cookies⟩ := x
    cases result with
    | error e => rfl
    | ok response =>
      dsimp only
      split
      · rfl
      · split
        · rfl
        · cases response.text <;> rfl

/-- Only a fetch changes the results. -/
theorem Step.perform_results (s : Step) (hs : s.fetchId? = none) :
    (s.perform client c).Ends R (fun _ x => x.2.results = c.results) now := by
  cases s with
  | fetch f => cases hs
  | delay duration =>
    show (performDelay duration c).Ends R _ now
    unfold performDelay
    split
    · rfl
    · rfl
    · split
      · rfl
      · exact Task.Ends.bind (Task.Ends.trivial _) fun _ _ _ => rfl
  | condition rule =>
    show (performCondition rule c).2.results = _
    unfold performCondition
    cases rule.holds c.results <;> rfl
  | logic mode rules =>
    show (performLogic mode rules c).2.results = _
    unfold performLogic
    cases mode.holds rules c.results <;> rfl
  | log message attached =>
    show (performLog message attached c).2.results = _
    unfold performLog
    split <;> rfl
  | notify n => exact n.perform_results

/-- A step keeps results so that they can be written. -/
theorem Step.perform_short (s : Step) (h : membersShort c.results = true) :
    (s.perform client c).Ends R (fun _ x => membersShort x.2.results = true) now := by
  cases hs : s.fetchId? with
  | none =>
    refine (s.perform_results hs).mono fun _ x hx => ?_
    rw [hx]
    exact h
  | some id =>
    cases s with
    | fetch f => exact f.perform_short h
    | _ => cases hs

theorem runSteps_ends_short (steps : List Step) (h : membersShort c.results = true) :
    (runSteps client steps c).Ends R (fun _ e => membersShort e.context.results = true) now := by
  induction steps generalizing c now with
  | nil => exact h
  | cons s rest ih =>
    refine Task.Ends.bind (s.perform_short h) fun d x hx => ?_
    refine Task.Ends.bind (Task.Ends.trivial _) fun d time _ => ?_
    obtain ⟨result, after⟩ := x
    cases result with
    | error fault => exact Task.Ends.bind (Task.Ends.trivial _) fun _ _ _ => hx
    | ok output =>
      simp only
      cases s.stopLine? output with
      | some line => exact hx
      | none => exact Task.Ends.bind (ih hx) fun _ e he => he

end

/-- **No integer in the results of a run has too many digits to be written**, as long as
none has at the beginning. -/
theorem runSteps_short (client : Http.Client) (steps : List Step) {c : Context}
    (h : (Json.obj c.results).isShort = true) (w : Surroundings) :
    (Json.obj ((runSteps client steps c).run w).1.context.results).isShort = true :=
  (runSteps_ends_short steps h).run_flowing

end Cadence
