/-
Flows read back from what they are dumped as.

A dump has every field under its own name and every value as it is, also numbers that are
not finite, and moments as moments.  A stored flow is made of a flow by dumping it, putting
its id and its moments beside the fields, and reading the whole again.

* `Flow.dump`, `StoredFlow.dump` — flows and stored flows as mappings;
* `Step.ofDocument_ofJson`, `Flow.ofDocument_dump`, `StoredFlow.ofDocument_dump` — whatever
  is well-formed is read back from its dump as it was;
* `Flow.read_dump` — reading is a projection, and stored flows keep their definitions.
-/
import Cadence.Proofs.Flow.Rules
import Cadence.Run.Validate

namespace Cadence

open Validation Document Calendar

/-! ### Dumps -/

/-- A flow as a mapping. -/
def Flow.dump (f : Flow) : Document := ofJson f.toJson

/-- A moment as it is, or nothing. -/
def momentOrNull : Option Moment → Document
  | none => .null
  | some m => .moment m

/-- A stored flow as a mapping: the fields of its definition, its id and its moments. -/
def StoredFlow.dump (r : StoredFlow) : Document :=
  .map (ofMembers r.definition.fields ++ [
    (.str "id", .str r.id), (.str "created_at", .moment r.createdAt),
    (.str "updated_at", .moment r.updatedAt),
    (.str "last_run_at", momentOrNull r.lastRunAt)])

/-! ### Steps -/

/-- Items that are each read back from what they are dumped as are read back as a list. -/
theorem listOf_ofJson {α : Type} {check : Document → Checked α} {f : α → Json} {xs : List α}
    (h : ∀ x ∈ xs, (check (ofJson (f x))).toOption = some x) :
    (listOf check (ofJson (.arr (xs.map f)))).toOption = some xs := by
  rw [ofJson, ofItems_eq, List.map_map, toOption_listOf_seq]
  refine (mapM_congr h).trans ?_
  exact (mapM_ite (fun _ => true) id xs).trans (by simp)

/-- Every target is read back, finite or not. -/
theorem Scalar.ofDocument_ofJson (t : Scalar) : Scalar.ofDocument (ofJson t.toJson) = .ok t := by
  cases t <;> rfl

theorem Rule.toOption_ofDocument_ofJson (r : Rule) :
    (Rule.ofDocument (ofJson (.obj r.fields))).toOption = some r := by
  refine (r.toOption_ofEntries_of_target rfl rfl rfl).trans ?_
  rw [Scalar.ofDocument_ofJson]
  rfl

/-- **A well-formed step is read back from its dump.** -/
theorem Step.ofDocument_ofJson {s : Step} (h : s.WellFormed) :
    Step.ofDocument (ofJson s.toJson) = .ok s := by
  -- what is finite is dumped as it is written down
  have hfinite (hf : s.toJson.allFinite = true) : Step.ofDocument (ofJson s.toJson) = .ok s := by
    have hread := Step.toOption_ofDocument h
    rw [if_pos hf, filed, Json.dropNonFinite_of_allFinite _ hf] at hread
    exact toOption_eq_some.mp hread
  cases s with
  | fetch f => exact hfinite f.allFinite_toJson
  | delay duration => exact hfinite rfl
  | condition r =>
    refine toOption_eq_some.mp ((Step.toOption_ofEntries "condition" rfl rfl).trans ?_)
    rw [toOption_map, r.toOption_ofEntries_of_target rfl rfl rfl, Scalar.ofDocument_ofJson]
    rfl
  | logic mode rules =>
    have hmode : oneOfUpper Text.upperAscii Mode.words (.str mode.word) = .ok mode := by
      cases mode <;> rfl
    have hrules :
        (listOf Rule.ofDocument (ofJson (.arr (rules.map fun r => .obj r.fields)))).toOption =
        some rules :=
      listOf_ofJson fun r _ => r.toOption_ofDocument_ofJson
    refine toOption_eq_some.mp ((Step.toOption_ofEntries "logic" rfl rfl).trans ?_)
    simp only [Checked.toOption_apply, toOption_ok]
    rw [toOption_fieldOr (v := .str mode.word) rfl, hmode,
      toOption_withDefault (v := ofJson (.arr (rules.map fun r => .obj r.fields))) rfl, hrules]
    rfl
  | log message names =>
    refine hfinite ?_
    simp [Step.toJson, Json.allFinite, Json.membersFinite, textsToJson_allFinite]
  | notify n => exact hfinite n.allFinite_toJson

/-! ### Flows and stored flows -/

theorem Flow.ofEntries_dump {f : Flow} (h : f.WellFormed) {es : List (Document × Document)}
    (hname : member? "name" es = some (.str f.name))
    (hschedule : member? "schedule" es = some (.str f.schedule))
    (henabled : member? "enabled" es = some (.bool f.enabled))
    (hsteps : member? "steps" es = some (ofJson (.arr (f.steps.map Step.toJson)))) :
    Flow.ofEntries es = .ok f := by
  have hread : (listOf Step.ofDocument (ofJson (.arr (f.steps.map Step.toJson)))).toOption =
      some f.steps :=
    listOf_ofJson fun s hs => toOption_eq_some.mpr (Step.ofDocument_ofJson (h.steps s hs))
  refine toOption_eq_some.mp
    ((Flow.toOption_ofEntries_of_steps h.name hname hschedule henabled hsteps).trans ?_)
  rw [hread]
  rfl

/-- **A well-formed flow is read back from its dump.** -/
theorem Flow.ofDocument_dump {f : Flow} (h : f.WellFormed) : Flow.ofDocument f.dump = .ok f := by
  show (Flow.ofEntries (ofMembers f.fields) >>= Flow.checked) = _
  rw [Flow.ofEntries_dump h rfl rfl rfl rfl, ok_bind, Flow.checked_of_wellFormed h]

theorem optional_moment_momentOrNull (m : Option Moment) :
    optional moment (momentOrNull m) = .ok m := by
  cases m <;> rfl

/-- A stored flow is read if each of its fields is, and its definition breaks no rule. -/
theorem StoredFlow.ofDocument_map {r : StoredFlow} {es : List (Document × Document)}
    (hflow : Flow.ofEntries es = .ok r.definition) (hid : required "id" text es = .ok r.id)
    (hcreated : required "created_at" moment es = .ok r.createdAt)
    (hupdated : required "updated_at" moment es = .ok r.updatedAt)
    (hlast : withDefault "last_run_at" none (optional moment) es = .ok r.lastRunAt)
    (hchecked : r.definition.checked = .ok r.definition) :
    StoredFlow.ofDocument (.map es) = .ok r := by
  rw [StoredFlow.ofDocument, entriesOr, ok_bind, hflow, hid, hcreated, hupdated, hlast]
  simp only [Checked.apply, ok_bind, hchecked]
  rfl

/-- **A stored flow with a well-formed definition is read back from its dump.** -/
theorem StoredFlow.ofDocument_dump {r : StoredFlow} (h : r.definition.WellFormed) :
    StoredFlow.ofDocument r.dump = .ok r := by
  refine ofDocument_map (Flow.ofEntries_dump h rfl rfl rfl rfl) ?_ ?_ ?_ ?_
    (Flow.checked_of_wellFormed h)
  · exact toOption_eq_some.mp (toOption_required (v := .str r.id) rfl text)
  · exact toOption_eq_some.mp (toOption_required (v := .moment r.createdAt) rfl moment)
  · exact toOption_eq_some.mp (toOption_required (v := .moment r.updatedAt) rfl moment)
  · refine toOption_eq_some.mp
      ((toOption_withDefault (v := momentOrNull r.lastRunAt) rfl none _).trans ?_)
    rw [optional_moment_momentOrNull]
    rfl

/-! ### Reading is a projection -/

theorem StoredFlow.ofFlow_id_ne {f : Flow} (h : f.KeepsRules) (id : Option String)
    (createdAt lastRunAt : Option Moment) (now : Moment) :
    (ofFlow f id createdAt lastRunAt now).id ≠ "" := by
  cases id with
  | none => exact h.id
  | some i =>
    show (if i.isEmpty then f.id else i) ≠ ""
    split
    · exact h.id
    next hne => exact fun heq => hne (String.isEmpty_iff.mpr heq)

/-- A stored flow is what is made of its definition, its id and its moments. -/
theorem StoredFlow.ofFlow_self {r : StoredFlow} (hid : r.id ≠ "") :
    ofFlow r.definition (some r.id) (some r.createdAt) r.lastRunAt r.updatedAt = r := by
  have hown : (if r.id.isEmpty then r.definition.id else r.id) = r.id :=
    if_neg fun h => hid (String.isEmpty_iff.mp h)
  show (⟨if r.id.isEmpty then r.definition.id else r.id, r.definition, r.createdAt,
    r.updatedAt, r.lastRunAt⟩ :
    StoredFlow) = r
  rw [hown]

/-- **Reading is a projection, and stored flows keep their definitions.**  A flow that was
read out of any document is read back from its dump.  Whatever stored flow is made of it is
read back from the dump that it is made by, has the flow as its definition, which passes the
check of flows again, and is made again of its own definition, id and moments; without an id
it goes by that of the name, and without a moment of creation it is new. -/
theorem Flow.read_dump {d : Document} {f : Flow} (hf : Flow.ofDocument d = .ok f) :
    Flow.ofDocument f.dump = .ok f ∧
    (∀ id createdAt lastRunAt now,
      let r := StoredFlow.ofFlow f id createdAt lastRunAt now
      StoredFlow.ofDocument r.dump = .ok r ∧ r.definition = f ∧
        r.definition.checked = .ok f ∧ r.id ≠ "" ∧
        (id = none → r.id = Flow.idOfName f.name) ∧
        (createdAt = none → r.createdAt = r.updatedAt)) ∧
    ∀ r : StoredFlow, r.definition = f → r.id ≠ "" →
      StoredFlow.ofDocument r.dump = .ok r ∧
        StoredFlow.ofFlow r.definition (some r.id) (some r.createdAt) r.lastRunAt
          r.updatedAt = r := by
  have h : f.WellFormed := Flow.wellFormed_of_ofDocument hf
  refine ⟨Flow.ofDocument_dump h, fun id createdAt lastRunAt now => ?_, fun r hr hid => ?_⟩
  · refine ⟨StoredFlow.ofDocument_dump h, rfl, Flow.checked_of_wellFormed h,
      StoredFlow.ofFlow_id_ne h.keepsRules id createdAt lastRunAt now, ?_, ?_⟩
    · rintro rfl
      rfl
    · rintro rfl
      rfl
  · exact ⟨StoredFlow.ofDocument_dump (hr.symm ▸ h), StoredFlow.ofFlow_self hid⟩

/-- A document with other names, letter cases and kinds of values than its dump. -/
theorem Flow.read_dump_coerced :
    let d : Document := .map [(.str "name", .str "Two Steps"), (.str "schedule", .str ""),
      (.str "enabled", .str "yes"), (.str "steps", .seq [
        .map [(.str "type", .str "fetch"), (.str "id", .str "x"), (.str "url", .str "http://h/"),
          (.str "method", .str "post"), (.str "timeout", .str "5")],
        .map [(.str "type", .str "logic"), (.str "logic", .str "and"), (.str "conditions", .seq [
          .map [(.str "input", .str "x"), (.str "operator", .str "="),
            (.str "value", .bool true)]])]])]
    let f : Flow := ⟨"Two Steps", "", true, [.fetch ⟨"x", "http://h/", .post, none, none, some 5⟩,
      .logic .all [⟨"x", .eq, .int 1⟩]]⟩
    let now : Moment := Instant.toMoment ⟨63000000000000000⟩
    let r := StoredFlow.ofFlow f none none none now
    Flow.ofDocument d = .ok f ∧ Flow.ofDocument f.dump = .ok f ∧
      StoredFlow.ofDocument r.dump = .ok r ∧
      r.id = Flow.idOfName "Two Steps" ∧ Flow.idOfName "Two Steps" = "two-steps" := by
  intro d f now r
  have hf : Flow.ofDocument d = .ok f := by rfl
  obtain ⟨hdump, hstored, _⟩ := Flow.read_dump hf
  obtain ⟨hread, _, _, _, hid, _⟩ := hstored none none none now
  exact ⟨hf, hdump, hread, hid rfl, by decide +kernel⟩

end Cadence
