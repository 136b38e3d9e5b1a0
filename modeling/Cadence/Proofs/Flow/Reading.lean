/-
Flows read back from what was written down.

* `Step.WellFormed`, `Flow.WellFormed` — what every flow that was read out of a document satisfies;
* `Step.toOption_ofDocument`, `Flow.toOption_ofDocument` — a well-formed step or flow is
  read back as it was if all its numbers are finite, and is refused otherwise.

The only numbers of a flow are the targets of its rules.  A target that is not finite is
written down as null, and null is no target.
-/
import Cadence.Proofs.Json.Finite
import Cadence.Proofs.Json.Put
import Cadence.Proofs.Validation.Checked

namespace Cadence

open Validation Document

/-! ### Well-formed flows -/

/-- A fetch with an id, with each header once, whose time limit, if there is one, leaves
some time. -/
structure Fetch.WellFormed (f : Fetch) : Prop where
  id : f.id ≠ ""
  headers : ∀ hs, f.headers = some hs → (names hs).Nodup
  timeout : ∀ n, f.timeout = some n → 0 < n

/-- A notification of an absolute address. -/
def Notice.WellFormed (n : Notice) : Prop :=
  (Text.startsWith n.url "http://" || Text.startsWith n.url "https://") = true

/-- A step whose fields are within their bounds. -/
def Step.WellFormed : Step → Prop
  | .fetch f => f.WellFormed
  | .notify n => n.WellFormed
  | _ => True

/-- A flow whose fields are within their bounds and that breaks no rule for a flow as a whole. -/
structure Flow.WellFormed (f : Flow) : Prop where
  name : f.name ≠ ""
  steps : ∀ s ∈ f.steps, s.WellFormed
  breach : f.breach? = none

/-! ### Texts and numbers -/

theorem isEmpty_eq_false {s : String} (h : s ≠ "") : s.isEmpty = false := by
  rw [← Bool.not_eq_true, String.isEmpty_iff]
  exact h

theorem nonEmptyText_str {s : String} (h : s ≠ "") : nonEmptyText (.str s) = .ok s := by
  show (if s.isEmpty then Checked.fail .tooShort else pure s) = _
  rw [isEmpty_eq_false h]
  rfl

theorem optional_filed_ofText? (s : Option String) :
    (optional text (filed (Json.ofText? s))).toOption = some s := by
  cases s <;> rfl

theorem toOption_listOf_seq {α β : Type} (check : Document → Checked β) (g : α → Document)
    (xs : List α) :
    (listOf check (.seq (xs.map g))).toOption = xs.mapM fun x => (check (g x)).toOption := by
  rw [listOf, Checked.toOption_each, List.mapM_map]
  rfl

theorem toOption_listOf {α β : Type} (check : Document → Checked β) (f : α → Json) (xs : List α) :
    (listOf check (filed (.arr (xs.map f)))).toOption =
      xs.mapM fun x => (check (filed (f x))).toOption := by
  rw [filed_arr, List.map_map]
  exact toOption_listOf_seq check (fun x => filed (f x)) xs

theorem listOf_text (ss : List String) :
    (listOf text (filed (.arr (ss.map .str)))).toOption = some ss := by
  rw [toOption_listOf]
  exact (mapM_ite (fun _ => true) id ss).trans (by simp)

theorem optional_filed_textsToJson (names : Option (List String)) :
    (optional (listOf text) (filed (textsToJson names))).toOption = some names := by
  cases names with
  | none => rfl
  | some ss =>
    show ((listOf text (filed (.arr (ss.map .str)))).map some).toOption = _
    rw [toOption_map, listOf_text]
    rfl

theorem textEntries_filedFields (hs : List (String × String)) :
    (textEntries (filedFields (hs.map fun h => (h.1, .str h.2)))).toOption = some hs := by
  induction hs with
  | nil => rfl
  | cons h hs ih =>
    rw [List.map_cons, filedFields_cons, textEntries]
    simp only [Checked.toOption_apply, Checked.toOption_within, ih]
    rfl

/-! ### Rules -/

/-- A target is read back if it is finite, and refused otherwise. -/
theorem Scalar.toOption_ofDocument (t : Scalar) :
    (Scalar.ofDocument (filed t.toJson)).toOption = if t.toJson.allFinite then some t
      else none := by
  cases t with
  | int n => rfl
  | text s => rfl
  | float x =>
    show (Scalar.ofDocument (ofJson (if x.isNaN || x.isInf then .null else .float x))).toOption =
      if !(x.isNaN || x.isInf) then _ else _
    cases x.isNaN || x.isInf <;> rfl

theorem Rule.allFinite_fields (r : Rule) :
    (Json.obj r.fields).allFinite = r.target.toJson.allFinite := by
  simp [Json.allFinite, Rule.fields, Json.membersFinite]

/-- A rule is read if its target is. -/
theorem Rule.toOption_ofEntries_of_target (r : Rule) {es : List (Document × Document)}
    {v : Document} (hinput : member? "input" es = some (.str r.input))
    (hoperator : member? "operator" es = some (.str r.operator.symbol))
    (htarget : member? "value" es = some v) :
    (Rule.ofEntries es).toOption = (Scalar.ofDocument v).toOption.map fun t =>
      { r with target := t } := by
  -- each comparison is the first one with its symbol
  have hop : oneOf Comparison.words (.str r.operator.symbol) = .ok r.operator := by
    cases r.operator <;> rfl
  simp only [Rule.ofEntries, Checked.toOption_apply, toOption_required hinput,
    toOption_required hoperator, toOption_required htarget, hop]
  rfl

theorem Rule.toOption_ofEntries (r : Rule) {es : List (Document × Document)}
    (hinput : member? "input" es = some (.str r.input))
    (hoperator : member? "operator" es = some (.str r.operator.symbol))
    (htarget : member? "value" es = some (filed r.target.toJson)) :
    (Rule.ofEntries es).toOption = if r.target.toJson.allFinite then some r else none := by
  rw [r.toOption_ofEntries_of_target hinput hoperator htarget, Scalar.toOption_ofDocument]
  cases r.target.toJson.allFinite <;> rfl

theorem Rule.toOption_ofDocument (r : Rule) :
    (Rule.ofDocument (filed (.obj r.fields))).toOption =
      if (Json.obj r.fields).allFinite then some r else none := by
  rw [Rule.allFinite_fields]
  exact r.toOption_ofEntries rfl rfl rfl

theorem listOf_rules (rules : List Rule) :
    (listOf Rule.ofDocument (filed (.arr (rules.map fun r => .obj r.fields)))).toOption =
      if rules.all fun r => (Json.obj r.fields).allFinite then some rules else none := by
  rw [toOption_listOf]
  simp only [Rule.toOption_ofDocument]
  exact (mapM_ite _ id rules).trans (by rw [List.map_id])

/-! ### Steps -/

theorem optional_headersToJson {headers : Option (List (String × String))}
    (h : ∀ hs, headers = some hs → (names hs).Nodup) :
    (optional textMapping (filed (headersToJson headers))).toOption = some headers := by
  cases headers with
  | none => rfl
  | some hs =>
    show (((textEntries (filedFields (hs.map fun h => (h.1, .str h.2)))).map collected).map
      some).toOption = _
    rw [toOption_map, toOption_map, textEntries_filedFields, Option.map_some, Option.map_some,
      collected_of_nodup (h hs rfl)]

theorem optional_nat?ToJson {timeout : Option Nat} (h : ∀ n, timeout = some n → 0 < n) :
    (optional positiveInteger (filed (nat?ToJson timeout))).toOption = some timeout := by
  cases timeout with
  | none => rfl
  | some n =>
    have hn : (0 : Int) < n := by
      have := h n rfl
      omega
    show ((if (0 : Int) < n then pure (n : Int).toNat else Checked.fail .notPositive :
      Checked Nat).map some).toOption = _
    rw [if_pos hn]
    rfl

theorem Fetch.toOption_ofEntries {f : Fetch} (h : f.WellFormed) {es : List (Document × Document)}
    (hes : filed (Step.fetch f).toJson = .map es) : (Fetch.ofEntries es).toOption = some f := by
  obtain rfl := Document.map.inj hes
  have hmethod : oneOfUpper Text.upperAscii (Method.all.map fun m => (m.word, m))
      (.str f.method.word) = .ok f.method := by
    cases f.method <;> rfl
  simp only [Fetch.ofEntries, Checked.toOption_apply, toOption_ok]
  rw [toOption_required (v := .str f.id) rfl, toOption_required (v := .str f.url) rfl,
    toOption_withDefault (v := .str f.method.word) rfl,
    toOption_withDefault (v := filed (headersToJson f.headers)) rfl,
    toOption_withDefault (v := filed (Json.ofText? f.body)) rfl,
    toOption_fieldOr (v := filed (nat?ToJson f.timeout)) rfl,
    nonEmptyText_str h.id, hmethod, optional_headersToJson h.headers, optional_filed_ofText?,
    optional_nat?ToJson h.timeout]
  rfl

theorem noticeUrl_str {url : String}
    (h : (Text.startsWith url "http://" || Text.startsWith url "https://") = true) :
    noticeUrl (.str url) = .ok url := by
  show (if Text.startsWith url "http://" || Text.startsWith url "https://" then pure url
    else Checked.fail (.broken "notify url must be an absolute http(s) URL")) = _
  rw [if_pos h]
  rfl

theorem Notice.toOption_ofEntries {n : Notice} (h : n.WellFormed) {es : List (Document × Document)}
    (hes : filed (Step.notify n).toJson = .map es) : (Notice.ofEntries es).toOption = some n := by
  obtain rfl := Document.map.inj hes
  have hchannel : oneOf (Channel.all.map fun c => (c.word, c)) (.str n.channel.word) =
      .ok n.channel := by
    cases n.channel <;> rfl
  simp only [Notice.ofEntries, Checked.toOption_apply, toOption_ok]
  rw [toOption_required (v := .str n.channel.word) rfl, toOption_required (v := .str n.url) rfl,
    toOption_withDefault (v := filed (Json.ofText? n.message)) rfl,
    toOption_fieldOr (v := filed (Json.ofText? n.payload)) rfl,
    toOption_withDefault (v := filed (textsToJson n.attached)) rfl,
    hchannel, noticeUrl_str h, optional_filed_ofText?, optional_filed_ofText?,
      optional_filed_textsToJson]
  rfl

/-- What is made of a mapping with the type of a step depends on the fields of that type alone. -/
theorem Step.toOption_ofEntries (tag : String) {es : List (Document × Document)} {c : Checked Step}
    (htag : member? "type" es = some (.str tag)) (hc : Step.ofEntries tag es = some c) :
    (Step.ofDocument (.map es)).toOption = c.toOption := by
  simp only [Step.ofDocument, entriesOr, bind, Except.bind, htag, hc]
  exact Checked.toOption_within _ _

theorem textsToJson_allFinite (names : Option (List String)) :
    (textsToJson names).allFinite = true := by
  cases names with
  | none => rfl
  | some ss => simp [textsToJson, Json.allFinite, Json.itemsFinite_eq]

theorem ofText?_allFinite (s : Option String) : (Json.ofText? s).allFinite = true := by
  cases s <;> rfl

theorem Fetch.allFinite_toJson (f : Fetch) : (Step.fetch f).toJson.allFinite = true := by
  have hheaders : (headersToJson f.headers).allFinite = true := by
    cases f.headers with
    | none => rfl
    | some hs => simp [headersToJson, Json.allFinite, Json.membersFinite_eq]
  have htimeout : (nat?ToJson f.timeout).allFinite = true := by
    cases f.timeout <;> rfl
  simp [Step.toJson, Json.allFinite, Json.membersFinite, hheaders, htimeout, ofText?_allFinite]

theorem Notice.allFinite_toJson (n : Notice) : (Step.notify n).toJson.allFinite = true := by
  simp [Step.toJson, Json.allFinite, Json.membersFinite, ofText?_allFinite, textsToJson_allFinite]

/-- **A well-formed step is read back if it is finite, and refused otherwise.** -/
theorem Step.toOption_ofDocument {s : Step} (h : s.WellFormed) :
    (Step.ofDocument (filed s.toJson)).toOption = if s.toJson.allFinite then some s else none := by
  cases s with
  | fetch f =>
    rw [f.allFinite_toJson]
    refine (Step.toOption_ofEntries "fetch" rfl rfl).trans ?_
    rw [toOption_map, Fetch.toOption_ofEntries h rfl]
    rfl
  | delay duration => rfl
  | condition r =>
    have hfinite : (Step.condition r).toJson.allFinite = r.target.toJson.allFinite := by
      simp [Step.toJson, Rule.fields, Json.allFinite, Json.membersFinite]
    rw [hfinite]
    refine (Step.toOption_ofEntries "condition" rfl rfl).trans ?_
    rw [toOption_map, r.toOption_ofEntries rfl rfl rfl]
    cases r.target.toJson.allFinite <;> rfl
  | logic mode rules =>
    have hfinite : (Step.logic mode rules).toJson.allFinite =
        rules.all fun r => (Json.obj r.fields).allFinite := by
      simp [Step.toJson, Json.allFinite, Json.membersFinite, Json.itemsFinite_eq, List.all_map,
        Function.comp_def]
    have hmode : oneOfUpper Text.upperAscii Mode.words (.str mode.word) = .ok mode := by
      cases mode <;> rfl
    rw [hfinite]
    refine (Step.toOption_ofEntries "logic" rfl rfl).trans ?_
    simp only [Checked.toOption_apply, toOption_ok]
    rw [toOption_fieldOr (v := .str mode.word) rfl, hmode,
      toOption_withDefault (v := filed (.arr (rules.map fun r => .obj r.fields))) rfl, listOf_rules]
    cases rules.all fun r => (Json.obj r.fields).allFinite <;> rfl
  | log message names =>
    have hfinite : (Step.log message names).toJson.allFinite = true := by
      simp [Step.toJson, Json.allFinite, Json.membersFinite, textsToJson_allFinite]
    rw [hfinite]
    refine (Step.toOption_ofEntries "log" rfl rfl).trans ?_
    simp only [Checked.toOption_apply, toOption_ok]
    rw [toOption_required (v := .str message) rfl,
      toOption_withDefault (v := filed (textsToJson names)) rfl, optional_filed_textsToJson]
    rfl
  | notify n =>
    rw [n.allFinite_toJson]
    refine (Step.toOption_ofEntries "notify" rfl rfl).trans ?_
    rw [toOption_map, Notice.toOption_ofEntries h rfl]
    rfl

/-! ### Flows -/

theorem listOf_steps {steps : List Step} (h : ∀ s ∈ steps, s.WellFormed) :
    (listOf Step.ofDocument (filed (.arr (steps.map Step.toJson)))).toOption =
      if steps.all fun s => s.toJson.allFinite then some steps else none := by
  rw [toOption_listOf, mapM_congr fun s hs => Step.toOption_ofDocument (h s hs)]
  exact (mapM_ite _ id steps).trans (by rw [List.map_id])

theorem Flow.allFinite_toJson (f : Flow) :
    f.toJson.allFinite = f.steps.all fun s => s.toJson.allFinite := by
  simp [Flow.toJson, Flow.fields, Json.allFinite, Json.membersFinite,
    Json.itemsFinite_eq, List.all_map, Function.comp_def]

/-- A flow is read, its fields among others, if its steps are. -/
theorem Flow.toOption_ofEntries_of_steps {f : Flow} (hne : f.name ≠ "")
    {es : List (Document × Document)} {v : Document}
    (hname : member? "name" es = some (.str f.name))
    (hschedule : member? "schedule" es = some (.str f.schedule))
    (henabled : member? "enabled" es = some (.bool f.enabled))
    (hsteps : member? "steps" es = some v) :
    (Flow.ofEntries es).toOption = (listOf Step.ofDocument v).toOption.map fun steps =>
      { f with steps := steps } := by
  simp only [Flow.ofEntries, Checked.toOption_apply, toOption_ok]
  rw [toOption_required hname, toOption_required hschedule, toOption_withDefault henabled,
    toOption_withDefault hsteps, nonEmptyText_str hne]
  rfl

theorem Flow.toOption_ofEntries {f : Flow} (h : f.WellFormed) {es : List (Document × Document)}
    (hname : member? "name" es = some (.str f.name))
    (hschedule : member? "schedule" es = some (.str f.schedule))
    (henabled : member? "enabled" es = some (.bool f.enabled))
    (hsteps : member? "steps" es = some (filed (.arr (f.steps.map Step.toJson)))) :
    (Flow.ofEntries es).toOption = if f.toJson.allFinite then some f else none := by
  rw [Flow.toOption_ofEntries_of_steps h.name hname hschedule henabled hsteps,
    listOf_steps h.steps, f.allFinite_toJson]
  cases f.steps.all fun s => s.toJson.allFinite <;> rfl

theorem Flow.checked_of_wellFormed {f : Flow} (h : f.WellFormed) : f.checked = .ok f := by
  unfold Flow.checked
  rw [h.breach]

/-- **A well-formed flow is read back if it is finite, and refused otherwise.** -/
theorem Flow.toOption_ofDocument {f : Flow} (h : f.WellFormed) :
    (Flow.ofDocument (filed f.toJson)).toOption = if f.toJson.allFinite then some f else none := by
  -- the fields are found by computing, and the rules for a flow as a whole are checked afterwards
  have hentries : (Flow.ofEntries (filedFields f.fields)).toOption = _ :=
    Flow.toOption_ofEntries h rfl rfl rfl rfl
  show (Flow.ofEntries (filedFields f.fields) >>= Flow.checked).toOption = _
  rw [toOption_bind, hentries]
  by_cases hf : f.toJson.allFinite = true
  · rw [if_pos hf, Option.bind_some, Flow.checked_of_wellFormed h]
    rfl
  · rw [if_neg hf]
    rfl

end Cadence
