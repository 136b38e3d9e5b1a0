/-
Flows as JSON values, with every field present.

* `Step.toJson`, `Flow.toJson`, `StoredFlow.toJson`.
-/
import Cadence.Flow.Basic

namespace Cadence

/-- A list of texts that may be absent. -/
def textsToJson : Option (List String) → Json
  | none => .null
  | some ss => .arr (ss.map .str)

/-- Headers that may be absent. -/
def headersToJson : Option (List (String × String)) → Json
  | none => .null
  | some hs => .obj (hs.map fun (n, v) => (n, .str v))

/-- A natural number that may be absent. -/
def nat?ToJson : Option Nat → Json
  | none => .null
  | some n => .int n

/-- The fields of a rule. -/
def Rule.fields (r : Rule) : List (String × Json) := [
  ("input", .str r.input), ("operator", .str r.operator.symbol), ("value", r.target.toJson)]

/-- A step. -/
def Step.toJson : Step → Json
  | .fetch f => .obj [
    ("type", .str "fetch"), ("id", .str f.id), ("url", .str f.url), ("method", .str f.method.word),
    ("headers", headersToJson f.headers), ("body", Json.ofText? f.body),
    ("timeout_ms", nat?ToJson f.timeout)]
  | .delay duration => .obj [("type", .str "delay"), ("duration", .str duration)]
  | .condition r => .obj (r.fields ++ [("type", .str "condition")])
  | .logic mode rules => .obj [
    ("type", .str "logic"), ("mode", .str mode.word),
    ("conditions", .arr (rules.map fun r => .obj r.fields))]
  | .log message names => .obj [
    ("type", .str "log"), ("message", .str message), ("include", textsToJson names)]
  | .notify n => .obj [
    ("type", .str "notify"), ("method", .str n.channel.word), ("url", .str n.url),
    ("message", Json.ofText? n.message), ("raw_payload", Json.ofText? n.payload),
    ("include", textsToJson n.attached)]

/-- The fields of a flow. -/
def Flow.fields (f : Flow) : List (String × Json) := [
  ("name", .str f.name), ("schedule", .str f.schedule), ("enabled", .bool f.enabled),
  ("steps", .arr (f.steps.map Step.toJson))]

/-- A flow. -/
def Flow.toJson (f : Flow) : Json := .obj f.fields

/-- A moment in its ISO notation. -/
def momentToJson (m : Calendar.Moment) : Json := .str m.isoText

/-- A moment that may be absent. -/
def moment?ToJson : Option Calendar.Moment → Json
  | none => .null
  | some m => momentToJson m

/-- A stored flow. -/
def StoredFlow.toJson (r : StoredFlow) : Json :=
  .obj (r.definition.fields ++ [
    ("id", .str r.id), ("created_at", momentToJson r.createdAt),
    ("updated_at", momentToJson r.updatedAt), ("last_run_at", moment?ToJson r.lastRunAt)])

end Cadence
