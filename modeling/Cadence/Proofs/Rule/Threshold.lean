/-
Thresholds on data that was not delivered.

A value that is missing or null is ordered like the empty text, which comes before the text
of every number.  A condition that asks for a value above a threshold therefore stops the
run where there is no value, and one that asks for a value below the threshold lets it go
on.

* `Scalar.text_ne` — no target but the empty text has the empty text;
* `Comparison.values_null_above`, `Comparison.values_null_below` — what is answered of nothing;
* `Execution.HasShape.exists_performed` — a run that is not stopped has performed each of its steps;
* `runSteps_decided` — what becomes of a run, and of its surroundings, at a step that decides;
* **`Flow.threshold_missing`** — what becomes of a run at a threshold on what a fetch has
  not delivered;
* `Flow.threshold_missing_passes` — a threshold that lets the run go on.
-/
import Cadence.Proofs.Run.Responses

namespace Cadence

open Calendar Text

/-! ### Nothing and numbers -/

namespace Decimal

theorem natDigits_ne_nil (n : Nat) : natDigits n ≠ [] := Nat.toDigits_ne_nil

theorem pointAfter_ne_nil (k : Nat) (ds : List Char) : pointAfter k ds ≠ [] := by simp [pointAfter]

theorem Scientific.layout_ne_nil (s : Scientific) : s.layout ≠ [] := by
  unfold Scientific.layout
  dsimp only
  split
  · split
    · exact List.cons_ne_nil _ _
    · exact pointAfter_ne_nil _ _
  · split
    · exact List.cons_ne_nil _ _
    · exact List.cons_ne_nil _ _
    · exact List.cons_ne_nil _ _

theorem text_ne (x : Float) : text x ≠ "" := by
  unfold text textWith
  split
  · decide
  · split
    · split <;> decide
    · next p _ =>
      intro h
      have hnil := (List.append_eq_nil_iff.mp (String.ofList_eq_empty_iff.mp h)).2
      split at hnil
      · cases hnil
      · exact Scientific.layout_ne_nil _ hnil

end Decimal

/-- Only the empty text has the empty text. -/
theorem Scalar.text_ne {target : Scalar} (h : target ≠ .text "") : target.toJson.text ≠ "" := by
  cases target with
  | int n =>
    show String.ofList (Json.intChars n) ≠ ""
    rw [Ne, String.ofList_eq_empty_iff, Json.intChars]
    split
    · exact List.cons_ne_nil _ _
    · exact Decimal.natDigits_ne_nil _
  | float x => exact Decimal.text_ne x
  | text s => exact fun hs => h (congrArg Scalar.text hs)

namespace Comparison

variable {target : Scalar}

theorem values_null_of_range (op : Comparison) (hin : ¬target.toJson.Exceeds) :
    op.values .null target.toJson = .ok (absent target.toJson op) := by
  obtain ⟨y, hy⟩ := number?_answered_iff.mpr hin
  exact values_null hy (Scalar.isShort_of_number? hy) op

/-- The empty text comes before every other one. -/
theorem empty_lt {t : String} (h : t ≠ "") : "" < t := by
  show [] < t.toList
  obtain ⟨c, cs, hcs⟩ := List.exists_cons_of_ne_nil fun hnil => h (String.toList_eq_nil_iff.mp hnil)
  rw [hcs]
  exact List.nil_lt_cons c cs

/-- **Nothing is not above a threshold that has a text.** -/
theorem values_null_above {op : Comparison} (hop : op = .gt ∨ op = .ge)
    (hin : ¬target.toJson.Exceeds) (htext : target.toJson.text ≠ "") :
    op.values .null target.toJson = .ok false := by
  have hlt := empty_lt htext
  rw [values_null_of_range op hin]
  rcases hop with rfl | rfl
  · simp [absent, texts, String.lt_asymm hlt]
  · simp [absent, texts, hlt]

/-- **Nothing is below a threshold that has a text.** -/
theorem values_null_below {op : Comparison} (hop : op = .lt ∨ op = .le)
    (hin : ¬target.toJson.Exceeds) (htext : target.toJson.text ≠ "") :
    op.values .null target.toJson = .ok true := by
  have hlt := empty_lt htext
  rw [values_null_of_range op hin]
  rcases hop with rfl | rfl
  · simp [absent, texts, hlt]
  · simp [absent, texts, String.lt_asymm hlt]

end Comparison

/-! ### Runs -/

/-- A run that is not stopped has performed each of its steps, without an error. -/
theorem Execution.HasShape.exists_performed {steps : List Step} {before : Context} {e : Execution}
    (h : e.HasShape steps before) (hstopped : ¬e.Stopped steps) {s : Step} (hs : s ∈ steps) :
    ∃ o, (s, o) ∈ e.performed steps ∧ o.error = none := by
  have hsuccess : e.success = true := by
    by_contra hfailed
    exact hstopped (Or.inl (Bool.eq_false_iff.mpr hfailed))
  have hall : steps.length ≤ e.outcomes.length := by
    by_contra hlt
    obtain ⟨p, hlast, hdecides, hfalse⟩ := h.decided hsuccess (Nat.lt_of_not_le hlt)
    exact hstopped (Or.inr ⟨p, List.mem_of_getLast? hlast, hdecides, hfalse⟩)
  have hfirst : (e.performed steps).map Prod.fst = steps := List.map_fst_zip hall
  rw [← hfirst] at hs
  obtain ⟨⟨s, o⟩, hmem, rfl⟩ := List.mem_map.mp hs
  refine ⟨o, hmem, ?_⟩
  by_contra herror
  have hfailed := h.success.mpr ⟨o, (List.of_mem_zip hmem).2, herror⟩
  exact absurd (hsuccess.symm.trans hfailed) nofun

section

variable (client : Http.Client) {s : Step} {b : Bool} (pre post : List Step) (c : Context)
  (w : Surroundings)

/-- A run whose first step has an output without asking anything: it ends there, or goes on
from the same surroundings. -/
theorem runSteps_of_done {output : Json} {after : Context}
    (hdone : s.perform client c = .done (.ok output, after)) :
    (runSteps client (s :: post) c).run w =
      match s.stopLine? output with
      | some stop => (⟨true, [⟨s.label, output, none, w.clock.toMoment⟩], after.logged stop⟩, w)
      | none =>
        let second := (runSteps client post after).run w
        (second.1.after [⟨s.label, output, none, w.clock.toMoment⟩], second.2) := by
  show Task.run ((s.perform client c).bind _) w = _
  rw [Task.run_bind, hdone]
  show Task.run (Task.now.bind _) w = _
  rw [Task.run_bind]
  dsimp only [Task.run]
  cases s.stopLine? output with
  | some stop => rfl
  | none => exact Task.run_bind _ _ w

/-- **A run that comes to a step that decides asks nothing of its surroundings there**, and
ends there or goes on. -/
theorem runSteps_decided (hs : s.decides = true) :
    let first := (runSteps client pre c).run w
    let whole := (runSteps client (pre ++ s :: post) c).run w
    ¬first.1.Stopped pre → s.decision first.1.context.results = .ok b →
      ∃ (line : String) (time : Moment),
        (b = false → ∃ stop : String, whole =
          (⟨true, first.1.outcomes ++ [⟨s.label, .bool false, none, time⟩],
          (first.1.context.logged line).logged stop⟩, first.2)) ∧
        (b = true →
          let second := (runSteps client post (first.1.context.logged line)).run first.2
          whole = (second.1.after (first.1.outcomes ++ [⟨s.label, .bool true, none, time⟩]),
              second.2)) := by
  intro first whole hreached hdecision
  obtain ⟨line, hline⟩ :
      ∃ line, s.perform client first.1.context =
        .done (.ok (.bool b), first.1.context.logged line) :=
    Step.perform_of_decided hs hdecision
  have hwhole : whole = _ := (runSteps_append_run client pre (s :: post) c w).2 hreached
  refine ⟨line, first.2.clock.toMoment, ?_, ?_⟩
  · rintro rfl
    obtain ⟨stop, hstop⟩ : ∃ stop, s.stopLine? (.bool false) = some stop :=
      Option.ne_none_iff_exists'.mp fun hnone => Step.stopLine?_eq_none_iff.mp hnone ⟨hs, rfl⟩
    refine ⟨stop, hwhole.trans ?_⟩
    rw [runSteps_of_done client post _ _ hline, hstop]
    rfl
  · rintro rfl
    have hpass : s.stopLine? (.bool true) = none :=
      Step.stopLine?_eq_none_iff.mpr fun h => nomatch h.2
    refine hwhole.trans ?_
    rw [runSteps_of_done client post _ _ hline, hpass]
    dsimp only [Execution.after]
    rw [List.append_assoc]

end

theorem eq_ok_none {ε α : Type} {x : Except ε (Option α)}
    (h : x.map Option.isNone = .ok true) : x = .ok none := by
  match x, h with
  | .ok none, _ => rfl

/-- **A threshold on what a fetch has not delivered.** Let a condition compare a value below
the id of an earlier fetch with a target that has a text and is within the range, and let a
run of the flow come to this condition. If the id has no dot, the path leads nowhere, or to
null, in the results just if it does so in what is kept of a response. If it does, a
condition that asks for more than the target is false: the run ends there in success, and
nothing more is asked of its surroundings, so that no further request is sent. A condition
that asks for less is true, and the run goes on. -/
theorem Flow.threshold_missing {d : Document} {flow : Flow}
    (hflow : Flow.ofDocument d = .ok flow) (client : Http.Client) {pre post : List Step}
    {f : Fetch} {rule : Rule} {path : String}
    (hsteps : flow.steps = pre ++ .condition rule :: post) (hfetch : .fetch f ∈ pre)
    (hinput : rule.input = f.id ++ "." ++ path) (htarget : rule.target ≠ .text "")
    (hin : ¬rule.target.toJson.Exceeds) (log : List String) (w : Surroundings)
    (hw : Server.IsNamed w.server) :
    let first := (runSteps client pre (.fresh log)).run w
    let whole := (runSteps client flow.steps (.fresh log)).run w
    let missing := (Json.obj first.1.context.results).lookupOrNull rule.input = .ok .null
    ¬first.1.Stopped pre →
      ('.' ∉ f.id.toList → ∃ response kept, Fetch.output response = .ok kept ∧
        (missing ↔ kept.follow (splitChars '.' path.toList) = .ok none ∨
          kept.follow (splitChars '.' path.toList) = .ok (some .null))) ∧
      (missing → rule.operator = .gt ∨ rule.operator = .ge →
        whole.1.success = true ∧
        (∃ time, whole.1.outcomes = first.1.outcomes ++ [⟨"condition", .bool false, none, time⟩]) ∧
        whole.2 = first.2) ∧
      (missing → rule.operator = .lt ∨ rule.operator = .le →
        ∃ (line : String) (time : Moment),
          let second := (runSteps client post (first.1.context.logged line)).run first.2
          whole = (second.1.after (first.1.outcomes ++ [⟨"condition", .bool true, none, time⟩]),
              second.2)) := by
  intro first whole missing hreached
  have hdecision (hmissing : missing) {b : Bool}
      (hb : rule.operator.values .null rule.target.toJson = .ok b) :
      (Step.condition rule).decision first.1.context.results = .ok b :=
    (Rule.holds_of_looked hmissing).trans hb
  refine ⟨fun hdot => ?_, fun hmissing hop => ?_, fun hmissing hop => ?_⟩
  · obtain ⟨o, hperformed, hdone⟩ :=
      (runSteps_shape client pre (.fresh log) w hw).1.exists_performed hreached hfetch
    obtain ⟨hkept, response, houtput⟩ :=
      Flow.exists_kept hflow client hsteps log w hw _ hperformed f.id ⟨rfl, hdone⟩
    refine ⟨response, o.output, houtput, ?_⟩
    show (Json.obj first.1.context.results).lookupOrNull rule.input = .ok .null ↔ _
    rw [hinput, Json.lookupOrNull, Json.lookup_below hdot hkept]
    cases o.output.follow (splitChars '.' path.toList) with
    | error fault => simp [Except.map]
    | ok found => cases found <;> simp [Except.map]
  · obtain ⟨line, time, hends, -⟩ :=
      runSteps_decided client pre post (.fresh log) w (s := .condition rule) rfl hreached
      (hdecision hmissing (Comparison.values_null_above hop hin (Scalar.text_ne htarget)))
    obtain ⟨stop, hwhole⟩ := hends rfl
    have hwhole : whole = _ :=
      (congrArg (fun steps => (runSteps client steps _).run w) hsteps).trans hwhole
    rw [hwhole]
    exact ⟨rfl, ⟨time, rfl⟩, rfl⟩
  · obtain ⟨line, time, -, hgoes⟩ :=
      runSteps_decided client pre post (.fresh log) w (s := .condition rule) rfl hreached
      (hdecision hmissing (Comparison.values_null_below hop hin (Scalar.text_ne htarget)))
    exact ⟨line, time,
      (congrArg (fun steps => (runSteps client steps _).run w) hsteps).trans (hgoes rfl)⟩

/-- A price that has not been delivered passes for one below 30000, and the alert is sent:
the flow is accepted, the path leads nowhere in the results, and yet the condition is true
and a second request goes out. -/
theorem Flow.threshold_missing_passes :
    let url : Document := .str "http://host/"
    let document : Document :=
      .map [(.str "name", .str "price"), (.str "schedule", .str ""), (.str "steps", .seq [
      .map [(.str "type", .str "fetch"), (.str "id", .str "price"), (.str "url", url)],
      .map [(.str "type", .str "condition"), (.str "input", .str "price.body.usd"),
        (.str "operator", .str "<"), (.str "value", .int 30000)],
      .map [(.str "type", .str "notify"), (.str "method", .str "slack"), (.str "url", url),
        (.str "message", .str "BTC below 30000")]])]
    let fetch : Step := .fetch ⟨"price", "http://host/", .get, none, none, none⟩
    let rule : Rule := ⟨"price.body.usd", .lt, .int 30000⟩
    let notice : Step := .notify ⟨.slack, "http://host/", some "BTC below 30000", none, none⟩
    let w : Surroundings := .start ⟨0⟩ (fun _ _ => ⟨0, .ok ⟨200, [], [0x7b, 0x7d]⟩⟩) fun _ => ""
    let first := (runSteps ⟨false, 0, false⟩ [fetch] (.fresh [])).run w
    let whole := (runSteps ⟨false, 0, false⟩ [fetch, .condition rule, notice] (.fresh [])).run w
    Flow.ofDocument document = .ok ⟨"price", "", true, [fetch, .condition rule, notice]⟩ ∧
      (Json.obj first.1.context.results).lookup rule.input = .ok none ∧
      rule.holds first.1.context.results = .ok true ∧
      whole.1.outcomes.map (·.label) = ["price", "condition", "notify"] ∧
      first.2.sent.length = 1 ∧ whole.2.sent.length = 2 := by
  intro url document fetch rule notice w first whole
  exact ⟨rfl, eq_ok_none (by decide +kernel), by decide +kernel, by decide +kernel, by
    decide +kernel, by decide +kernel⟩

/-- A price that has not been delivered does not pass for one above 30000. -/
theorem Flow.threshold_missing_stops :
    let fetch : Step := .fetch ⟨"price", "http://host/", .get, none, none, none⟩
    let rule : Rule := ⟨"price.body.usd", .gt, .int 30000⟩
    let notice : Step := .notify ⟨.slack, "http://host/", some "BTC above 30000", none, none⟩
    let w : Surroundings := .start ⟨0⟩ (fun _ _ => ⟨0, .ok ⟨200, [], [0x7b, 0x7d]⟩⟩) fun _ => ""
    let first := (runSteps ⟨false, 0, false⟩ [fetch] (.fresh [])).run w
    let whole := (runSteps ⟨false, 0, false⟩ [fetch, .condition rule, notice] (.fresh [])).run w
    whole.1.success = true ∧ whole.2 = first.2 := by
  intro fetch rule notice w first whole
  have hin : ¬(Json.int 30000).Exceeds := by
    rintro ⟨n, hn, hlarge⟩
    obtain rfl := Json.int.inj hn
    exact absurd hlarge (by decide +kernel)
  have hstopped : ¬first.1.Stopped [fetch] := fun h =>
    absurd (Execution.stops_iff.mpr h) (by decide +kernel)
  have hmissing : (Json.obj first.1.context.results).lookupOrNull rule.input = .ok .null := by
    rw [Json.lookupOrNull, eq_ok_none (x := (Json.obj first.1.context.results).lookup rule.input)
      (by decide +kernel)]
    rfl
  let flow : Flow := ⟨"price", "", true, [fetch, .condition rule, notice]⟩
  have hflow :
      Flow.ofDocument
      (.map [(.str "name", .str "price"), (.str "schedule", .str ""), (.str "steps", .seq [
      .map [(.str "type", .str "fetch"), (.str "id", .str "price"),
        (.str "url", .str "http://host/")],
      .map [(.str "type", .str "condition"), (.str "input", .str "price.body.usd"),
        (.str "operator", .str ">"), (.str "value", .int 30000)],
      .map [(.str "type", .str "notify"), (.str "method", .str "slack"),
        (.str "url", .str "http://host/"),
        (.str "message", .str "BTC above 30000")]])]) = .ok flow := rfl
  have hsteps : flow.steps = [fetch] ++ .condition rule :: [notice] := rfl
  have hinput : rule.input = "price" ++ "." ++ "body.usd" := by decide +kernel
  obtain ⟨-, habove, -⟩ := Flow.threshold_missing hflow ⟨false, 0, false⟩ hsteps
    (List.mem_singleton_self _) hinput
    nofun hin [] w nofun hstopped
  obtain ⟨hsuccess, -, hquiet⟩ := habove hmissing (Or.inl rfl)
  exact ⟨hsuccess, hquiet⟩

end Cadence
