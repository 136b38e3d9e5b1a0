/-
Lines for the log, and the runs that write them.

The line of a log step is its message, with every placeholder replaced, and the values at
the attached paths behind it.  It can be produced unless one of these paths is refused, or
an integer found there has too many digits, and only then a run fails with the step.

* `withAttached_answered_iff` — when the attached values can be put behind a message;
* `Step.performLog_of_refused`, `Step.performLog_of_not_refused` — what a log step comes to;
* **`Step.log_answered`** — the texts that can be produced, and what becomes of a run that
  gets to a log step.
-/
import Cadence.Proofs.Json.Finite
import Cadence.Proofs.Run.Reached
import Cadence.Proofs.Template.Refusal

namespace Cadence

theorem fillText_answered_iff {c : Context} {message : String} :
    (∃ text, fillText c (some message) = .ok text) ↔ ¬Template.Refuses c.results message := by
  rw [← interpolate_answered_iff]
  exact exists_congr fun text => mapError_eq_ok

theorem attachedValues_answered_iff {c : Context} {paths : List String} :
    (∃ values, attachedValues c paths = .ok values) ↔
      ∀ p ∈ paths, ¬(Json.obj c.results).Refuses p := by
  have hone (p : String) :
      (∃ pair, (((Json.obj c.results).lookupOrNull p).map fun v => (p, v)).mapError
        StepFault.integer = .ok pair) ↔ ¬(Json.obj c.results).Refuses p := by
    rw [← Json.lookupOrNull_answered_iff]
    cases (Json.obj c.results).lookupOrNull p <;> simp [Except.map]
  unfold attachedValues
  rw [exists_mapM_eq_ok]
  simp only [List.mem_eraseDups, hone]

/-- What is attached for a path is what is found there, or null. -/
theorem attachedValues_found {c : Context} {paths : List String} {values : List (String × Json)}
    (h : attachedValues c paths = .ok values) {p : String} (hp : p ∈ paths) :
    ∃ v, (Json.obj c.results).lookupOrNull p = .ok v ∧ (p, v) ∈ values := by
  obtain ⟨pair, hpair, hread⟩ := exists_of_mapM_eq_ok h (List.mem_eraseDups.mpr hp)
  obtain ⟨v, hv, rfl⟩ := map_eq_ok.mp (mapError_eq_ok.mp hread)
  exact ⟨v, hv, hpair⟩

theorem exists_path_of_attached {c : Context} {paths : List String} {values : List (String × Json)}
    (h : attachedValues c paths = .ok values) {e : String × Json} (he : e ∈ values) :
    e.1 ∈ paths ∧ (Json.obj c.results).lookupOrNull e.1 = .ok e.2 := by
  obtain ⟨p, hp, hread⟩ := exists_of_mem_mapM h he
  obtain ⟨v, hv, rfl⟩ := map_eq_ok.mp (mapError_eq_ok.mp hread)
  exact ⟨List.mem_eraseDups.mp hp, hv⟩

/-- The integers in what stands at a path, or null, can be written just if those in what is
found there can. -/
theorem Json.not_unshown_iff {v : Json} {path : String} :
    ¬v.Unshown path ↔ ∃ w, v.lookupOrNull path = .ok w ∧ w.isShort = true := by
  unfold Json.Unshown Json.lookupOrNull
  rw [← Json.lookup_refused_iff]
  cases v.lookup path with
  | error fault => simp [Except.map]
  | ok found => cases found <;> simp [Except.map, Json.isShort]

/-- **The values at attached paths can be put behind a message just if there is a text for
each of them.** -/
theorem withAttached_answered_iff {c : Context} {message : String} {paths : Option (List String)} :
    (∃ text, withAttached c message paths = .ok text) ↔
      ∀ p ∈ paths.getD [], ¬(Json.obj c.results).Unshown p := by
  simp only [Json.not_unshown_iff]
  unfold withAttached
  cases hvalues : attachedValues c (paths.getD []) with
  | error fault =>
    refine iff_of_false (by simp) fun h => ?_
    obtain ⟨values, hread⟩ := attachedValues_answered_iff.mpr fun p hp =>
      Json.lookupOrNull_answered_iff.mp ((h p hp).imp fun w hw => hw.1)
    cases hvalues.symm.trans hread
  | ok values =>
    have hshort : (∀ p ∈ paths.getD [], ∃ w, (Json.obj c.results).lookupOrNull p = .ok w ∧
        w.isShort = true) ↔ (Json.obj values).isShort = true := by
      rw [show (Json.obj values).isShort = Json.membersShort values from rfl,
        Json.membersShort_eq, List.all_eq_true]
      constructor
      · intro h e he
        obtain ⟨hp, hfound⟩ := exists_path_of_attached hvalues he
        obtain ⟨w, hw, hwshort⟩ := h e.1 hp
        obtain rfl := Except.ok.inj (hw.symm.trans hfound)
        exact hwshort
      · intro h p hp
        obtain ⟨v, hv, hmem⟩ := attachedValues_found hvalues hp
        exact ⟨v, hv, h _ hmem⟩
    rw [hshort, ok_bind]
    cases values with
    | nil => exact iff_of_true ⟨message, rfl⟩ rfl
    | cons e values =>
      dsimp only
      unfold Json.rendered
      cases (Json.obj (e :: values)).isShort <;> simp [Except.mapError, pure, Except.pure]

namespace Step

/-- There is no text for a placeholder in a message, or for what is attached. -/
def LogRefused (message : String) (attached : Option (List String)) (results : Results) : Prop :=
  Template.Refuses results message ∨ ∃ p ∈ attached.getD [], (Json.obj results).Unshown p

section

variable {message : String} {attached : Option (List String)} {c : Context}

/-- What is wrong with a line is wrong with a path or an integer. -/
theorem line_faults : Faults (fun fault => ∃ f, fault = StepFault.integer f)
    (do withAttached c (← fillText c (some message)) attached) := by
  refine Faults.bind (Faults.mapError fun f _ => ⟨f, rfl⟩) fun text => ?_
  refine Faults.bind (Faults.mapM (fun p => Faults.mapError fun f _ => ⟨f, rfl⟩) _) fun values => ?_
  split
  · exact Faults.ok _
  · exact Faults.bind (Faults.mapError fun f _ => ⟨f, rfl⟩) fun _ => Faults.ok _

/-- A log step fails if there is no text for its line, and then for what is wrong with a
path or an integer. -/
theorem performLog_of_refused (h : LogRefused message attached c.results) :
    ∃ fault : Decimal.IntegerFault, performLog message attached c =
      (.error (.integer fault), c) := by
  unfold performLog
  cases hline : (do withAttached c (← fillText c (some message)) attached : Except StepFault String)
    with
  | error fault =>
    obtain ⟨f, rfl⟩ := line_faults fault hline
    exact ⟨f, rfl⟩
  | ok text =>
    obtain ⟨filled, hfilled, htext⟩ := bind_eq_ok.mp hline
    rcases h with hmessage | ⟨p, hp, hrefused⟩
    · exact absurd hmessage (fillText_answered_iff.mp ⟨filled, hfilled⟩)
    · exact absurd hrefused (withAttached_answered_iff.mp ⟨text, htext⟩ p hp)

theorem performLog_of_not_refused (h : ¬LogRefused message attached c.results) :
    ∃ text : String, performLog message attached c =
      (.ok (.bool true), c.logged s!"[log] {text}") := by
  obtain ⟨hmessage, hattached⟩ := not_or.mp h
  obtain ⟨filled, hfilled⟩ := fillText_answered_iff.mpr hmessage
  obtain ⟨text, htext⟩ : ∃ text, withAttached c filled attached = .ok text :=
    withAttached_answered_iff.mpr fun p hp hrefused => hattached ⟨p, hp, hrefused⟩
  unfold performLog
  rw [hfilled, ok_bind, htext]
  exact ⟨text, rfl⟩

end

/-- **Which texts can be produced, and what becomes of a run at a log step.** A template has
a text, and a message its attached values, just if no path in them is refused and the
integers in the values found can be written. A run that the steps before do not stop fails
with the log step if that is not so of it at the results that it finds, and otherwise writes
a line and goes on. -/
theorem log_answered (client : Http.Client) (xs ys : List Step) (message : String)
    (attached : Option (List String)) (c : Context) (w : Surroundings) :
    ((∃ text, interpolate c.results message = .ok text) ↔ ¬Template.Refuses c.results message) ∧
    ((∃ text, withAttached c message attached = .ok text) ↔
      ∀ p ∈ attached.getD [], ¬(Json.obj c.results).Unshown p) ∧
    let first := ((runSteps client xs c).run w).1
    let e := ((runSteps client (xs ++ .log message attached :: ys) c).run w).1
    ¬first.Stopped xs →
      (LogRefused message attached first.context.results →
        e.success = false ∧ ∃ (fault : Decimal.IntegerFault) (time : Calendar.Moment),
          e.outcomes = first.outcomes ++ [⟨"log", .null, some fault.message, time⟩]) ∧
      (¬LogRefused message attached first.context.results →
        ∃ (text : String) (time : Calendar.Moment) (w' : Surroundings),
          e = ((runSteps client ys (first.context.logged s!"[log] {text}")).run w').1.after
            (first.outcomes ++ [⟨"log", .bool true, none, time⟩])) := by
  refine ⟨interpolate_answered_iff, withAttached_answered_iff, ?_⟩
  intro first e hreached
  have hproceeds : Execution.Proceeds client (.log message attached) ys first.outcomes
      (performLog message attached first.context) e :=
    runSteps_reached client (.log message attached) xs ys c w hreached
  constructor
  · intro hrefused
    obtain ⟨fault, hfault⟩ := performLog_of_refused hrefused
    rw [hfault] at hproceeds
    obtain ⟨hsuccess, time, houtcomes⟩ := hproceeds.of_error
    exact ⟨hsuccess, fault, time, houtcomes⟩
  · intro hanswered
    obtain ⟨text, htext⟩ := performLog_of_not_refused hanswered
    rw [htext] at hproceeds
    obtain ⟨time, w', he⟩ := hproceeds.of_pass rfl
    exact ⟨text, time, w', he⟩

/-- A run that fails with a log step, at a superscript where an item of an array is due. -/
theorem log_answered_superscript :
    ((runSteps ⟨false, 0, false⟩ [.log "first" (some ["a.²"])] ⟨[("a", .arr [.int 1])], [], []⟩).run
      (.start ⟨0⟩ (fun _ _ => ⟨0, .ok ⟨200, [], []⟩⟩) fun _ => "run")).1.success = false := by
  have hunreadable : Unreadable ['²'] :=
    ⟨List.cons_ne_nil _ _, List.forall_mem_singleton.mpr (by decide +kernel),
      Or.inl ⟨'²', List.mem_singleton_self _, by decide +kernel⟩⟩
  have hrefused : LogRefused "first" (some ["a.²"]) [("a", .arr [.int 1])] :=
    Or.inr ⟨"a.²", List.mem_singleton_self _,
      Or.inl (.behind (w := .arr [.int 1]) rfl (.here hunreadable))⟩
  exact (((log_answered _ [] [] "first" (some ["a.²"]) ⟨[("a", .arr [.int 1])], [], []⟩ _).2.2
    (Execution.not_stopped_nil _)).1 hrefused).1

end Step

end Cadence
