/-
Reading flows out of documents.

The fields of a step are checked one by one and then the rules for the flow as a whole: the name
gives an id, no two fetches have the same id, a webhook has a payload and any other notification a
message.

* `Step.ofDocument`, `Flow.ofDocument` — a step or flow, or all issues of the document;
* `Flow.breach?` — the first breach of the rules for a flow as a whole.
-/
import Cadence.Flow.Basic
import Cadence.Validation.Scalar

namespace Cadence

open Validation

/-- The entries of a mapping. -/
def entriesOr (defect : Defect) : Document → Checked (List (Document × Document))
  | .map entries => .ok entries
  | _ => Checked.fail defect

/-- The target that bytes mean: the integer or the number that their text writes, or else
the text. -/
def Scalar.ofEncoded (s : String) : Scalar :=
  match integerOfText s, numberOfText s with
  | .ok n, _ => .int n
  | .error _, .ok x => .float x
  | .error _, .error _ => .text s

/-- The target of a rule: an integer, a number or a text. -/
def Scalar.ofDocument : Document → Checked Scalar
  | .int n => .ok (.int n)
  | .float x => .ok (.float x)
  | .str s => .ok (.text s)
  | .bool b => .ok (.int (if b then 1 else 0))
  | .bytes bs =>
    match String.fromUTF8? ⟨bs.toArray⟩ with
    | some s => .ok (ofEncoded s)
    | none => .error [⟨[.name "int"], .unreadableInteger⟩, ⟨[.name "float"], .unreadableNumber⟩,
      ⟨[.name "str"], .notUnicode⟩]
  | _ =>
    .error [⟨[.name "int"], .notInteger⟩, ⟨[.name "float"], .notNumber⟩,
      ⟨[.name "str"], .notText⟩]

/-- The comparisons by their symbols. -/
def Comparison.words : List (String × Comparison) := Comparison.all.map fun c => (c.symbol, c)

/-- The fields of a rule. -/
def Rule.ofEntries (es : List (Document × Document)) : Checked Rule :=
  Checked.apply (Checked.apply (Checked.apply (.ok Rule.mk)
    (required "input" text es))
    (required "operator" (oneOf Comparison.words) es))
    (required "value" Scalar.ofDocument es)

/-- A rule. -/
def Rule.ofDocument (d : Document) : Checked Rule := do
  Rule.ofEntries (← entriesOr (.notModel "ConditionRule") d)

/-- The modes by their words. -/
def Mode.words : List (String × Mode) := [("AND", .all), ("OR", .any)]

/-- The fields of a fetch. -/
def Fetch.ofEntries (es : List (Document × Document)) : Checked Fetch :=
  Checked.apply (Checked.apply (Checked.apply (Checked.apply (Checked.apply (Checked.apply
    (.ok Fetch.mk)
    (required "id" nonEmptyText es))
    (required "url" text es))
    (withDefault "method" .get
      (oneOfUpper Text.upperAscii (Method.all.map fun m => (m.word, m))) es))
    (withDefault "headers" none (optional textMapping) es))
    (withDefault "body" none (optional text) es))
    (fieldOr ["timeout_ms", "timeout"] (.ok none) (optional positiveInteger) es)

/-- The address of a notification, which must be absolute. -/
def noticeUrl (d : Document) : Checked String := do
  let url ← text d
  if Text.startsWith url "http://" || Text.startsWith url "https://" then pure url
  else Checked.fail (.broken "notify url must be an absolute http(s) URL")

/-- The fields of a notification. -/
def Notice.ofEntries (es : List (Document × Document)) : Checked Notice :=
  Checked.apply (Checked.apply (Checked.apply (Checked.apply (Checked.apply
    (.ok Notice.mk)
    (required "method" (oneOf (Channel.all.map fun c => (c.word, c))) es))
    (required "url" noticeUrl es))
    (withDefault "message" none (optional text) es))
    (fieldOr ["raw_payload", "rawPayload"] (.ok none) (optional text) es))
    (withDefault "include" none (optional (listOf text)) es)

namespace Step

/-- The fields of a step of a known kind. -/
def ofEntries (tag : String) (es : List (Document × Document)) : Option (Checked Step) :=
  match tag with
  | "fetch" => some ((Fetch.ofEntries es).map .fetch)
  | "delay" => some ((required "duration" text es).map .delay)
  | "condition" => some ((Rule.ofEntries es).map .condition)
  | "logic" =>
    some (Checked.apply (Checked.apply (.ok Step.logic)
      (fieldOr ["mode", "logic"] (Checked.fail .missing)
        (oneOfUpper Text.upperAscii Mode.words) es))
      (withDefault "conditions" [] (listOf Rule.ofDocument) es))
  | "log" =>
    some (Checked.apply (Checked.apply (.ok Step.log)
      (required "message" text es))
      (withDefault "include" none (optional (listOf text)) es))
  | "notify" => some ((Notice.ofEntries es).map .notify)
  | _ => none

/-- A step. -/
def ofDocument (d : Document) : Checked Step := do
  let es ← entriesOr .notObject d
  match Document.member? "type" es with
  | none => Checked.fail .noTag
  | some (.str tag) =>
    match ofEntries tag es with
    | some step => Checked.within (.name tag) step
    | none => Checked.fail (.unknownTag tag)
  | some tag => Checked.fail (.unknownTag tag.text)

end Step

/-- A breach of the rules for a flow as a whole. -/
inductive Breach where
  | noId (name : String)
  | repeatedFetch (index : Nat) (id : String)
  | noPayload (index : Nat)
  | noMessage (index : Nat)
  deriving DecidableEq, Repr

/-- The wording of a breach. -/
def Breach.message : Breach → String
  | .noId name => s!"Flow name {Text.quoted name} must contain at least one letter or digit"
  | .repeatedFetch i id =>
    s!"steps[{i}]: duplicate fetch id \"{id}\". Each fetch step must have a unique id."
  | .noPayload i => s!"steps[{i}]: raw_payload is required for webhook notifications"
  | .noMessage i =>
    s!"steps[{i}]: message is required for slack, discord, and teams notifications"

/-- Whether an optional text is absent or blank. -/
def isBlankText (s : Option String) : Bool := (s.map Text.isAllBlank).getD true

/-- The breach that a step makes after fetches with the given ids. -/
def Step.breach? (ids : List String) (index : Nat) : Step → Option Breach
  | .fetch f => if ids.contains f.id then some (.repeatedFetch index f.id) else none
  | .notify n =>
    match n.channel with
    | .webhook => if isBlankText n.payload then some (.noPayload index) else none
    | _ => if isBlankText n.message then some (.noMessage index) else none
  | _ => none

/-- The first breach of a row of steps. -/
def stepsBreach? (ids : List String) (index : Nat) : List Step → Option Breach
  | [] => none
  | s :: rest =>
    (s.breach? ids index).orElse fun _ =>
      stepsBreach? (s.fetchId?.toList ++ ids) (index + 1) rest

namespace Flow

/-- The first breach of the rules for a flow as a whole. -/
def breach? (f : Flow) : Option Breach :=
  if f.id.isEmpty then some (.noId f.name) else stepsBreach? [] 0 f.steps

/-- The flow itself, if it breaks no rule. -/
def checked (f : Flow) : Checked Flow :=
  match f.breach? with
  | some b => Checked.fail (.broken b.message)
  | none => .ok f

/-- The fields of a flow. -/
def ofEntries (es : List (Document × Document)) : Checked Flow :=
  Checked.apply (Checked.apply (Checked.apply (Checked.apply (.ok Flow.mk)
    (required "name" nonEmptyText es))
    (required "schedule" text es))
    (withDefault "enabled" true truthValue es))
    (withDefault "steps" [] (listOf Step.ofDocument) es)

/-- A flow. -/
def ofDocument (d : Document) : Checked Flow := do
  let f ← ofEntries (← entriesOr (.notModel "FlowConfig") d)
  f.checked

end Flow

end Cadence
