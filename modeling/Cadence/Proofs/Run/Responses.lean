/-
Responses in the results of a run.

A fetch that is answered keeps the status, the headers and the body of the response under
its id, and every later step of the run finds them there.  What it can refer to depends on
the id: a rule or an attached path gets to the status just if the id has no dot, and a
placeholder just if the id is referable.

* `Fetch.exists_output` — what is kept of a response;
* `runSteps_answered` — the output of a fetch is what is kept of some response;
* `Flow.exists_kept` — and it stays under the id of the fetch in the runs of accepted flows;
* `StatusSeen` — what can be seen of the status under an id;
* **`Flow.status_seen`** — what the later steps of an accepted flow see of the status of a fetch.
-/
import Cadence.Proofs.Flow.Accepted
import Cadence.Proofs.Rule.Decision
import Cadence.Proofs.Template.Reference

namespace Cadence

open Calendar Text

/-! ### Outputs of fetches -/

/-- What is kept of a response begins with its status, which can be written. -/
theorem Fetch.exists_output {response : Http.Response} {v : Json}
    (h : Fetch.output response = .ok v) :
    (Json.int response.status).isShort = true ∧
      ∃ headers body, v =
        .obj [("status", .int response.status), ("headers", headers), ("body", body)] := by
  obtain ⟨body, -, hv⟩ := bind_eq_ok.mp h
  split at hv
  · next hshort => exact ⟨hshort, _, body, (Except.ok.inj hv).symm⟩
  · cases hv

section

variable {R : Timing} {c : Instant} {before : Context} {client : Http.Client}

/-- A fetch with an output has been answered. -/
theorem Fetch.perform_answered (f : Fetch) :
    (f.perform client before).Ends R (fun _ x => ∀ v, x.1 = .ok v →
      ∃ response, Fetch.output response = .ok v) c := by
  unfold Fetch.perform
  split
  · exact nofun
  · exact nofun
  · refine Task.Ends.bind (Task.Ends.trivial _) fun _ x _ => ?_
    obtain ⟨result, cookies⟩ := x
    match result with
    | .error e => cases f.timeout <;> exact nofun
    | .ok response =>
      cases ho : Fetch.output response with
      | error e =>
        simp only [ho]
        exact nofun
      | ok value =>
        simp only [ho]
        intro v hv
        exact ⟨response, ho.trans hv⟩

theorem Step.perform_answered (s : Step) :
    (s.perform client before).Ends R
      (fun _ x => ∀ id v, s.fetchId? = some id → x.1 = .ok v →
        ∃ response, Fetch.output response = .ok v) c := by
  cases s with
  | fetch f => exact f.perform_answered.mono fun _ _ h _ v _ => h v
  | _ => exact (Task.Ends.trivial _).mono fun _ _ _ => nofun

/-- **Every fetch of a run that has an output has been answered, and keeps what is kept of a
response.** -/
theorem runSteps_answered (steps : List Step) :
    (runSteps client steps before).Ends R
      (fun _ e => ∀ p ∈ e.performed steps, ∀ id, Fetched id p →
        ∃ response, Fetch.output response = .ok p.2.output)
      c := by
  induction steps generalizing before c with
  | nil => exact fun _ hp => absurd hp List.not_mem_nil
  | cons s rest ih =>
    refine Task.Ends.bind s.perform_answered fun d x hx => ?_
    refine Task.Ends.bind (Task.Ends.trivial _) fun d time _ => ?_
    obtain ⟨result, after⟩ := x
    cases result with
    | error fault =>
      refine Task.Ends.bind (Task.Ends.trivial _) fun _ _ _ => ?_
      show ∀ p ∈ Execution.performed _ _, _
      rw [Execution.performed_one]
      rintro p hp id ⟨-, hdone⟩
      obtain rfl := List.mem_singleton.mp hp
      cases hdone
    | ok output =>
      have hfirst (id : String) (h : Fetched id (s, ⟨s.label, output, none, time.toMoment⟩)) :
          ∃ response, Fetch.output response = .ok output :=
        hx id output h.1 rfl
      simp only
      cases s.stopLine? output with
      | some line =>
        show ∀ p ∈ Execution.performed _ _, _
        rw [Execution.performed_one]
        intro p hp id hf
        obtain rfl := List.mem_singleton.mp hp
        exact hfirst id hf
      | none =>
        refine Task.Ends.bind ih fun _ e he => ?_
        intro p hp id hf
        rcases List.mem_cons.mp hp with rfl | hp
        · exact hfirst id hf
        · exact he p hp id hf

end

/-! ### The status -/

/-- What can be seen, over some results, of the status under an id. -/
structure StatusSeen (results : Results) (id : String) (status : Int) : Prop where
  /-- A rule on it compares the status, if the id has no dot. -/
  compared : '.' ∉ id.toList → ∀ rule : Rule, rule.input = id ++ ".status" →
    rule.holds results = rule.operator.values (.int status) rule.target.toJson
  /-- Attached to a message it is the status, if the id has no dot. -/
  attached : '.' ∉ id.toList →
    ∀ (c : Context) (paths : List String) (values : List (String × Json)),
    c.results = results → attachedValues c paths = .ok values → id ++ ".status" ∈ paths →
      (id ++ ".status", .int status) ∈ values
  /-- A placeholder for it stands for the status, if the id is referable. -/
  rendered : Referable id → ∀ tail, interpolate results (reference (id ++ ".status") ++ tail) =
    (interpolate results tail).map ((Json.int status).text ++ ·)
  /-- Where there is no other result it is seen in no other case. -/
  only : (∀ other ∈ names results, other = id) →
    ((Json.obj results).lookupOrNull (id ++ ".status") = .ok (.int status) ↔ '.' ∉ id.toList) ∧
    (interpolate results (reference (id ++ ".status")) = .ok (Json.int status).text ↔ Referable id)

/-- The text of an integer begins with a minus sign or a digit. -/
theorem head?_text_int (n : Int) :
    ∃ c, (Json.int n).text.toList.head? = some c ∧ (c = '-' ∨ c.isDigit = true) := by
  have hchars : (Json.int n).text.toList = Json.intChars n := by simp [Json.text]
  rw [hchars, Json.intChars]
  split
  · exact ⟨'-', rfl, Or.inl rfl⟩
  · obtain ⟨c, cs, hcs⟩ :=
      List.exists_cons_of_ne_nil (Nat.toDigits_ne_nil (b := 10) (n := n.natAbs))
    have hmem : c ∈ Nat.toDigits 10 n.natAbs := hcs ▸ List.mem_cons_self
    exact ⟨c, by rw [Decimal.natDigits, hcs, List.head?_cons],
      Or.inr (Nat.isDigit_of_mem_toDigits (by decide) (by decide) hmem)⟩

/-- **What is kept of a response shows its status.** -/
theorem statusSeen_of_kept {results : Results} {id : String} {response : Http.Response} {v : Json}
    (hkept : results.lookup id = some v) (houtput : Fetch.output response = .ok v) :
    StatusSeen results id response.status := by
  obtain ⟨hshort, headers, body, rfl⟩ := Fetch.exists_output houtput
  have hfollow :
      (Json.obj [("status", .int response.status), ("headers", headers),
      ("body", body)]).follow
      (splitChars '.' "status".toList) = .ok (some (.int response.status)) := by
    rw [show splitChars '.' "status".toList = ["status".toList]
      from splitChars_of_not_mem (by decide)]
    rfl
  have hinput : id ++ ".status" = id ++ "." ++ "status" := by
    rw [String.append_assoc]
    rfl
  have hlooked (hdot : '.' ∉ id.toList) :
      (Json.obj results).lookupOrNull (id ++ ".status") = .ok (.int response.status) := by
    rw [Json.lookupOrNull, hinput, Json.lookup_below hdot hkept, hfollow]
    rfl
  have hrendered (hid : Referable id) (tail : String) :
      interpolate results (reference (id ++ ".status") ++ tail) =
        (interpolate results tail).map ((Json.int response.status).text ++ ·) := by
    rw [hinput]
    exact interpolate_below hid (by decide) (by rintro c ⟨⟩; decide) hkept hfollow
      (by simp) hshort tail
  refine ⟨fun hdot rule hrule => Rule.holds_of_looked (hrule ▸ hlooked hdot), ?_, hrendered,
    fun honly => ⟨⟨?_, hlooked⟩, ?_, ?_⟩⟩
  · rintro hdot c paths values rfl hvalues hpath
    obtain ⟨pair, hpair, hread⟩ := exists_of_mapM_eq_ok hvalues (List.mem_eraseDups.mpr hpath)
    rw [hlooked hdot] at hread
    obtain rfl := Except.ok.inj hread
    exact hpair
  · intro hseen hdot
    have hother : headSegment (id ++ ".status") ≠ id := fun h => not_mem_headSegment _ (h ▸ hdot)
    have hnone : results.lookup (headSegment (id ++ ".status")) = none :=
      lookup_eq_none_iff_names.mpr fun hmem => hother (honly _ hmem)
    rw [Json.lookupOrNull, Json.lookup_of_head hnone] at hseen
    cases hseen
  · intro hseen
    by_contra hid
    rw [hinput] at hseen
    obtain ⟨c, hc, hfirst⟩ := head?_text_int response.status
    rcases interpolate_not_referable hid (by decide) honly hseen with hhead | hhead <;>
    · rw [hc] at hhead
      obtain rfl := Option.some.inj hhead
      exact absurd hfirst (by decide)
  · intro hid
    have halone := hrendered hid ""
    rw [String.append_empty, interpolate_of_not_mem (b := "") (by decide)] at halone
    rw [halone]
    exact congrArg Except.ok String.append_empty

/-- **What an answered fetch keeps stays under its id**, in every run of the first steps of
an accepted flow. -/
theorem Flow.exists_kept {d : Document} {flow : Flow} (hflow : Flow.ofDocument d = .ok flow)
    (client : Http.Client) {pre post : List Step} (hsteps : flow.steps = pre ++ post)
    (log : List String) (w : Surroundings) (hw : Server.IsNamed w.server) :
    let first := ((runSteps client pre (.fresh log)).run w).1
    ∀ p ∈ first.performed pre, ∀ id, Fetched id p →
      first.context.results.lookup id = some p.2.output ∧
      ∃ response, Fetch.output response = .ok p.2.output := by
  intro first p hp id hf
  have hnodup : (pre.filterMap Step.fetchId?).Nodup := by
    have hall := (Flow.wellFormed_of_ofDocument hflow).fetchIds_nodup
    rw [hsteps, List.filterMap_append] at hall
    exact (List.nodup_append.mp hall).1
  exact ⟨(runSteps_shape client pre (.fresh log) w hw).2.2 hnodup p hp id hf,
    Task.Ends.run_named hw (runSteps_answered (c := w.clock) pre) p hp id hf⟩

/-- **Later steps see the status of a fetch under its id.** Where a run of an accepted flow
comes to a step, each earlier fetch that has an output has been answered. The path of the
status below the id of the fetch leads a rule and attached values of this step to the status
of the response if the id has no dot, and a placeholder if the id has no closing brace and
does not begin with a blank either. -/
theorem Flow.status_seen {d : Document} {flow : Flow} (hflow : Flow.ofDocument d = .ok flow)
    (client : Http.Client) {pre post : List Step} {s : Step}
    (hsteps : flow.steps = pre ++ s :: post) (log : List String) (w : Surroundings)
    (hw : Server.IsNamed w.server) :
    let first := (runSteps client pre (.fresh log)).run w
    ¬first.1.Stopped pre →
      Execution.Proceeds client s post first.1.outcomes
        ((s.perform client first.1.context).run first.2).1
        ((runSteps client flow.steps (.fresh log)).run w).1 ∧
      ∀ p ∈ first.1.performed pre, ∀ id, Fetched id p →
        ∃ response, Fetch.output response = .ok p.2.output ∧
        StatusSeen first.1.context.results id response.status := by
  intro first hreached
  refine ⟨hsteps ▸ runSteps_reached client s pre post (.fresh log) w hreached, fun p hp id hf => ?_⟩
  obtain ⟨hkept, response, houtput⟩ := Flow.exists_kept hflow client hsteps log w hw p hp id hf
  exact ⟨response, houtput, statusSeen_of_kept hkept houtput⟩

/-- The status under an id with a dot is kept, but a later placeholder does not stand for it. -/
theorem Flow.status_seen_dotted :
    let fetch : Step := .fetch ⟨"a.b", "http://host/", .get, none, none, none⟩
    let first := ((runSteps ⟨false, 0, false⟩ [fetch] (.fresh [])).run
      (.start ⟨0⟩ (fun _ _ => ⟨0, .ok ⟨200, [], []⟩⟩) fun _ => "")).1
    ∃ response : Http.Response, StatusSeen first.context.results "a.b" response.status ∧
      interpolate first.context.results (reference "a.b.status") ≠
        .ok (Json.int response.status).text := by
  intro fetch first
  have hstopped : ¬first.Stopped [fetch] := fun h =>
    absurd (Execution.stops_iff.mpr h) (by decide +kernel)
  let flow : Flow := ⟨"status", "", true, [fetch, .log "done" none]⟩
  have hflow :
      Flow.ofDocument
      (.map [(.str "name", .str "status"), (.str "schedule", .str ""), (.str "steps", .seq [
      .map [(.str "type", .str "fetch"), (.str "id", .str "a.b"),
        (.str "url", .str "http://host/")],
      .map [(.str "type", .str "log"), (.str "message", .str "done")]])]) = .ok flow := rfl
  have hsteps : flow.steps = [fetch] ++ .log "done" none :: [] := rfl
  obtain ⟨-, hseen⟩ := Flow.status_seen hflow ⟨false, 0, false⟩ hsteps []
    (.start ⟨0⟩ (fun _ _ => ⟨0, .ok ⟨200, [], []⟩⟩) fun _ => "") nofun hstopped
  obtain ⟨o, ho⟩ : ∃ o, first.outcomes = [o] := List.length_eq_one_iff.mp (by decide +kernel)
  have hdone : ∀ o ∈ first.outcomes, o.error = none := by decide +kernel
  have hperformed : (fetch, o) ∈ first.performed [fetch] := by
    rw [Execution.performed, ho]
    exact List.mem_singleton_self _
  obtain ⟨response, -, hstatus⟩ :=
    hseen _ hperformed "a.b" ⟨rfl, hdone o (ho ▸ List.mem_singleton_self o)⟩
  refine ⟨response, hstatus, fun hrendered => ?_⟩
  have hreferable := (hstatus.only (by decide +kernel)).2.mp hrendered
  exact hreferable.noDot (by decide)

example :
    let first :=
      ((runSteps ⟨false, 0, false⟩ [.fetch ⟨"a", "http://host/", .get, none, none, none⟩]
        (.fresh [])).run
      (.start ⟨0⟩ (fun _ _ => ⟨0, .ok ⟨200, [], []⟩⟩) fun _ => "")).1
    interpolate first.context.results "status $\x7ba.status\x7d" = .ok "status 200" := by
  decide +kernel

end Cadence
