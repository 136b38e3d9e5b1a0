/-
The shape of a run.

A run performs its steps in order until one fails or decides against going on.  What it
leaves behind tells exactly how far it got, why it ended there, and what each of its fetches
kept.

* `Execution.performed` — the steps performed, each with its outcome;
* `Execution.HasShape` — what holds of every run, as one structure, and one lemma about it
  for each way in which a run begins;
* `runSteps_ends`, `runSteps_shape` — every run has this shape;
* `Flow.WellFormed.fetchIds_nodup` — the fetches of a well-formed flow have distinct ids.
-/
import Cadence.Proofs.Flow.Rules
import Cadence.Proofs.Json.Put
import Cadence.Proofs.Run.Steps

namespace Cadence

open Calendar

/-! ### Steps performed -/

/-- The steps performed, each with its outcome. -/
def Execution.performed (steps : List Step) (e : Execution) : List (Step × StepOutcome) :=
  steps.zip e.outcomes

/-- A fetch under an id that has an output. -/
def Fetched (id : String) (p : Step × StepOutcome) : Prop :=
  p.1.fetchId? = some id ∧ p.2.error = none

/-- The results after steps with their outcomes. -/
def keepAll : List (Step × StepOutcome) → Results → Results
  | [], results => results
  | (s, o) :: rest, results =>
    keepAll rest (match o.error with
      | none => s.keep o.output results
      | some _ => results)

section Results

variable {performed : List (Step × StepOutcome)} {results : Results} {id : String}

/-- Under other ids than those of the fetches that have an output the results stay what they are. -/
theorem lookup_keepAll_of_not_fetched (h : ∀ p ∈ performed, ¬Fetched id p) :
    (keepAll performed results).lookup id = results.lookup id := by
  induction performed generalizing results with
  | nil => rfl
  | cons p rest ih =>
    obtain ⟨s, o⟩ := p
    obtain ⟨hfirst, hrest⟩ := List.forall_mem_cons.mp h
    rw [keepAll, ih hrest]
    cases ho : o.error with
    | some text => rfl
    | none =>
      cases hid : s.fetchId? with
      | none => simp only [Step.keep, hid]
      | some other =>
        have hne : id ≠ other := by
          rintro rfl
          exact hfirst ⟨hid, ho⟩
        simp only [Step.keep, hid]
        exact lookup_put_ne hne

/-- Only the ids of fetches that have an output come to the results. -/
theorem mem_names_keepAll (h : id ∈ names (keepAll performed results)) :
    id ∈ names results ∨ ∃ p ∈ performed, Fetched id p := by
  by_contra hnot
  simp only [not_or, not_exists, not_and] at hnot
  obtain ⟨hnew, hnone⟩ := hnot
  refine lookup_eq_none_iff_names.mp ?_ h
  rw [lookup_keepAll_of_not_fetched hnone]
  exact lookup_eq_none_iff_names.mpr hnew

/-- Under the id of a fetch that has an output is this output, if no two fetches share an id. -/
theorem lookup_keepAll_of_fetched (hn : (performed.filterMap fun p => p.1.fetchId?).Nodup)
    {p : Step × StepOutcome} (hp : p ∈ performed) (hf : Fetched id p) :
    (keepAll performed results).lookup id = some p.2.output := by
  induction performed generalizing results with
  | nil => cases hp
  | cons q rest ih =>
    rw [keepAll]
    rcases List.mem_cons.mp hp with rfl | hp
    -- the fetch is the first step, and no later one has its id
    · obtain ⟨s, o⟩ := p
      have hid : s.fetchId? = some id := hf.1
      have ho : o.error = none := hf.2
      have hlater : ∀ q ∈ rest, ¬Fetched id q := by
        intro q hq hfq
        simp only [List.filterMap_cons, hid] at hn
        exact (List.nodup_cons.mp hn).1 (List.mem_filterMap.mpr ⟨q, hq, hfq.1⟩)
      rw [lookup_keepAll_of_not_fetched hlater]
      simp only [ho, Step.keep, hid]
      exact lookup_put_self
    · refine ih (List.Nodup.sublist ?_ hn) hp
      exact (List.sublist_cons_self q rest).filterMap _

end Results

/-! ### Runs -/

theorem mem_dropLast_cons {α : Type} {a b : α} {l : List α} (h : b ∈ (a :: l).dropLast) :
    b = a ∨ b ∈ l.dropLast := by
  cases l with
  | nil => cases h
  | cons c l => exact List.mem_cons.mp h

theorem getLast?_cons_of_some {α : Type} {a b : α} {l : List α} (h : l.getLast? = some b) :
    (a :: l).getLast? = some b := by
  rw [List.getLast?_cons, h]
  rfl

namespace Execution

/-- The shape of what is left of a run of steps from a state on. -/
structure HasShape (steps : List Step) (before : Context) (e : Execution) : Prop where
  /-- The outcomes belong to the first steps, in their order. -/
  labels : e.outcomes.map (·.label) <+: steps.map Step.label
  /-- Only the last step performed may have failed. -/
  errors : ∀ o ∈ e.outcomes.dropLast, o.error = none
  /-- Every failure is put into words. -/
  words : ∀ o ∈ e.outcomes, o.error ≠ some ""
  /-- A run has no success exactly if a step failed. -/
  success : e.success = false ↔ ∃ o ∈ e.outcomes, o.error ≠ none
  /-- Before the last step performed, all decisions were in favour of going on. -/
  held : ∀ p ∈ (e.performed steps).dropLast, p.1.decides = true → p.2.output = .bool true
  /-- A run that succeeds before its last step was ended by a decision. -/
  decided : e.success = true → e.outcomes.length < steps.length →
    ∃ p, (e.performed steps).getLast? = some p ∧ p.1.decides = true ∧ p.2.output = .bool false
  /-- The log goes on. -/
  log : before.log <+: e.context.log
  /-- The last line of the log of a run without success is about the step that failed. -/
  failure : e.success = false →
    ∃ p text, (e.performed steps).getLast? = some p ∧ p.2.error = some text ∧
      e.context.log.getLast? = some s!"[{p.1.kind}] Error: {text}"
  /-- The results are those of the fetches that have an output. -/
  results : e.context.results = keepAll (e.performed steps) before.results

variable {s : Step} {rest : List Step} {before after : Context} {output : Json} {text line : String}
  {time : Moment} {e : Execution}

theorem performed_one (s : Step) (rest : List Step) (success : Bool) (o : StepOutcome)
    (c : Context) :
    performed (s :: rest) ⟨success, [o], c⟩ = [(s, o)] := by
  rw [performed, List.zip_cons_cons, List.zip_nil_right]

namespace HasShape

/-- A run without steps changes nothing. -/
theorem nil : HasShape [] before ⟨true, [], before⟩ where
  labels := List.prefix_refl _
  errors := nofun
  words := nofun
  success := ⟨nofun, nofun⟩
  held := fun _ hp => absurd hp List.not_mem_nil
  decided := nofun
  log := List.prefix_refl _
  failure := nofun
  results := rfl

/-- A run whose first step fails. -/
theorem failed (hwords : text ≠ "") (hlog : before.log <+: after.log)
    (hresults : after.results = before.results) :
    HasShape (s :: rest) before
      ⟨false, [⟨s.label, .null, some text, time⟩], after.logged s!"[{s.kind}] Error: {text}"⟩ where
  labels := ⟨rest.map Step.label, rfl⟩
  errors := nofun
  words := by
    intro o ho
    obtain rfl := List.mem_singleton.mp ho
    exact fun h => hwords (Option.some.inj h)
  success := ⟨fun _ => ⟨_, List.mem_singleton_self _, Option.some_ne_none _⟩, fun _ => rfl⟩
  held := by
    rw [performed_one]
    exact fun _ hp => absurd hp List.not_mem_nil
  decided := nofun
  log := hlog.trans (Context.prefix_logged _ _)
  failure := by
    rw [performed_one]
    exact fun _ => ⟨_, text, rfl, rfl, List.getLast?_concat⟩
  results := by
    rw [performed_one]
    exact hresults

/-- A run whose first step decides against going on. -/
theorem stopped (hs : s.decides = true) (hfalse : output = .bool false)
    (hlog : before.log <+: after.log)
    (hresults : after.results = s.keep output before.results) :
    HasShape (s :: rest) before ⟨true, [⟨s.label, output, none, time⟩], after.logged line⟩ where
  labels := ⟨rest.map Step.label, rfl⟩
  errors := nofun
  words := by
    intro o ho
    obtain rfl := List.mem_singleton.mp ho
    exact nofun
  success := by
    refine ⟨nofun, fun ⟨o, ho, herror⟩ => ?_⟩
    obtain rfl := List.mem_singleton.mp ho
    exact absurd rfl herror
  held := by
    rw [performed_one]
    exact fun _ hp => absurd hp List.not_mem_nil
  decided := by
    rw [performed_one]
    exact fun _ _ => ⟨_, rfl, hs, hfalse⟩
  log := hlog.trans (Context.prefix_logged _ _)
  failure := nofun
  results := by
    rw [performed_one]
    exact hresults

/-- A run that goes on after its first step. -/
theorem cons (htrue : s.decides = true → output = .bool true) (hlog : before.log <+: after.log)
    (hresults : after.results = s.keep output before.results) (h : HasShape rest after e) :
    HasShape (s :: rest) before
      { e with outcomes := ⟨s.label, output, none, time⟩ :: e.outcomes } where
  labels := List.cons_prefix_cons.mpr ⟨rfl, h.labels⟩
  errors := by
    intro o ho
    rcases mem_dropLast_cons ho with rfl | ho
    · rfl
    · exact h.errors o ho
  words := List.forall_mem_cons.mpr ⟨nofun, h.words⟩
  success := by
    refine h.success.trans ⟨fun ⟨o, ho, hne⟩ => ⟨o, .tail _ ho, hne⟩, fun ⟨o, ho, hne⟩ => ?_⟩
    rcases List.mem_cons.mp ho with rfl | ho
    · exact absurd rfl hne
    · exact ⟨o, ho, hne⟩
  held := by
    intro p hp
    rcases mem_dropLast_cons hp with rfl | hp
    · exact htrue
    · exact h.held p hp
  decided := by
    intro hsuccess hlt
    obtain ⟨p, hlast, hp⟩ := h.decided hsuccess (Nat.lt_of_succ_lt_succ hlt)
    exact ⟨p, getLast?_cons_of_some hlast, hp⟩
  log := hlog.trans h.log
  failure := by
    intro hsuccess
    obtain ⟨p, text, hlast, hp⟩ := h.failure hsuccess
    exact ⟨p, text, getLast?_cons_of_some hlast, hp⟩
  results := by
    rw [h.results, hresults]
    rfl

end HasShape

end Execution

/-- However the other side behaves, a run ends with an execution of its shape. -/
theorem runSteps_ends (client : Http.Client) (steps : List Step) (before : Context) (c : Instant) :
    (runSteps client steps before).Ends .named (fun _ e => e.HasShape steps before) c := by
  induction steps generalizing before c with
  | nil => exact .nil
  | cons s rest ih =>
    refine Task.Ends.bind s.perform_leaves fun d x hx => ?_
    refine Task.Ends.bind (Task.Ends.trivial _) fun d time _ => ?_
    cases hx with
    | failed words log results =>
      exact Task.Ends.bind (Task.Ends.trivial _) fun _ _ _ => .failed words log results
    | @done output after log results decision =>
      simp only
      cases hstop : s.stopLine? output with
      | some line =>
        have hfalse : s.decides = true ∧ output = .bool false := by
          by_contra hnot
          rw [Step.stopLine?_eq_none_iff.mpr hnot] at hstop
          cases hstop
        exact .stopped hfalse.1 hfalse.2 log results
      | none =>
        refine Task.Ends.bind (ih after d) fun _ e he => .cons (fun hs => ?_) log results he
        obtain ⟨b, rfl⟩ := decision hs
        cases b with
        | true => rfl
        | false => exact absurd ⟨hs, rfl⟩ (Step.stopLine?_eq_none_iff.mp hstop)

/-- The fetches performed are among those of all steps. -/
theorem Execution.fetchIds_performed (steps : List Step) (e : Execution) :
    ((e.performed steps).filterMap fun p => p.1.fetchId?).Sublist
      (steps.filterMap Step.fetchId?) := by
  have hsteps : (e.performed steps).map Prod.fst =
      steps.take (min steps.length e.outcomes.length) := by
    rw [performed, List.zip_eq_zip_take_min, List.map_fst_zip]
    simp
  have hids : ((e.performed steps).filterMap fun p => p.1.fetchId?) =
      ((e.performed steps).map Prod.fst).filterMap Step.fetchId? := by
    rw [List.filterMap_map]
    rfl
  rw [hids, hsteps]
  exact (List.take_sublist _ _).filterMap _

/-- **Every run has its shape.** However the other side behaves, as long as its failures are
of some kind, a run of any steps from any state on performs its steps in order until one
fails or decides against going on, its results gain nothing but the outputs of fetches, and
under the id of a fetch is its output if no two fetches share an id. -/
theorem runSteps_shape (client : Http.Client) (steps : List Step) (before : Context)
    (w : Surroundings) (hw : Server.IsNamed w.server) :
    let e := ((runSteps client steps before).run w).1
    e.HasShape steps before ∧
    (∀ id ∈ names e.context.results, id ∈ names before.results ∨
      ∃ p ∈ e.performed steps, Fetched id p) ∧
    ((steps.filterMap Step.fetchId?).Nodup → ∀ p ∈ e.performed steps, ∀ id, Fetched id p →
      e.context.results.lookup id = some p.2.output) := by
  intro e
  have he : e.HasShape steps before :=
    Task.Ends.run_named hw (runSteps_ends client steps before w.clock)
  refine ⟨he, fun id hid => ?_, fun hn p hp id hf => ?_⟩
  · rw [he.results] at hid
    exact mem_names_keepAll hid
  · rw [he.results]
    exact lookup_keepAll_of_fetched (hn.sublist (Execution.fetchIds_performed steps e)) hp hf

/-- A fetch that is answered, one that is not, and a step that is not performed. -/
theorem runSteps_shape_refusedFetch :
    let server : Server := fun earlier _ =>
      if earlier.isEmpty then ⟨0, .ok ⟨200, [], [0x37]⟩⟩ else ⟨0, .error ⟨"ConnectError", ""⟩⟩
    let fetch (id : String) : Step := .fetch ⟨id, "http://host/", .get, none, none, none⟩
    let steps := [fetch "a", fetch "b", .log "done" none]
    let e := ((runSteps ⟨true, 10, false⟩ steps (.fresh ["begun"])).run
      (.start ⟨0⟩ server fun _ => "")).1
    Server.IsNamed server ∧ e.HasShape steps (.fresh ["begun"]) ∧
      (∀ p ∈ e.performed steps, ∀ id, Fetched id p →
        e.context.results.lookup id = some p.2.output) ∧
      e.outcomes.map (fun o => (o.label, o.error)) = [("a", none), ("b", some "ConnectError")] ∧
      names e.context.results = ["a"] ∧
      e.context.log =
          ["begun", "[fetch:a] GET http://host/ -> 200",
          "[fetch] Error: ConnectError"] := by
  intro server fetch steps e
  have hserver : Server.IsNamed server := by
    intro earlier r f hf
    cases earlier with
    | nil => cases hf
    | cons first others =>
      cases hf
      exact (by decide : "ConnectError" ≠ "")
  obtain ⟨hshape, _, hkept⟩ := runSteps_shape ⟨true, 10, false⟩ steps (.fresh ["begun"])
    (.start ⟨0⟩ server fun _ => "") hserver
  exact ⟨hserver, hshape, hkept (by decide +kernel), by decide +kernel, by
    decide +kernel, by decide +kernel⟩

/-! ### Ids of fetches -/

/-- **The fetches of a well-formed flow have distinct ids.** -/
theorem Flow.WellFormed.fetchIds_nodup {f : Flow} (h : f.WellFormed) :
    (f.steps.filterMap Step.fetchId?).Nodup :=
  h.keepsRules.steps.fetches

end Cadence
