/-
What can go wrong with stored flows and with the steps of a run.

Every problem has a message for people, a code for programs and details that name what it is about.

* `Problem.message`, `Problem.code`, `Problem.details`.
-/
import Cadence.Json.Basic

namespace Cadence

/-- A problem with a stored flow or with a step of a run. -/
inductive Problem where
  /-- A problem without a kind of its own; an empty code stands for the usual one. -/
  | general (message code : String) (details : Json)
  /-- No flow is stored under the id. -/
  | flowNotFound (id : String)
  /-- A flow is stored under the id already. -/
  | flowExists (id : String)
  /-- A step failed for a reason without a kind of its own. -/
  | stepFailed (message code : String) (details : Json)
  /-- A request took longer than its step allows. -/
  | timedOut (milliseconds : Int)
  /-- The duration of a delay cannot be read. -/
  | badDuration (text : String)
  /-- A notification was answered with a status that is no success. -/
  | refused (status : Int) (body : String)
  /-- The payload of a webhook is not JSON. -/
  | badPayload (reason : String)
  deriving Inhabited, Repr

namespace Problem

/-- The number of characters of an answer that a message quotes. -/
def quotedLength : Nat := 100

/-- The message of a problem. -/
def message : Problem → String
  | .general m _ _ => m
  | .flowNotFound id => s!"Flow not found: {id}"
  | .flowExists id => s!"Flow already exists: {id}"
  | .stepFailed m _ _ => m
  | .timedOut ms => s!"Request timed out after {ms}ms"
  | .badDuration text => s!"Invalid duration format \"{text}\""
  | .refused status body =>
    s!"Notify request failed ({status}): {String.ofList (body.toList.take quotedLength)}"
  | .badPayload reason => s!"Invalid webhook payload JSON: {reason}"

/-- The code of a problem. -/
def code : Problem → String
  | .general _ code _ => if code.isEmpty then "NexflowError" else code
  | .flowNotFound _ => "FLOW_NOT_FOUND"
  | .flowExists _ => "FLOW_EXISTS"
  | .stepFailed _ code _ => if code.isEmpty then "StepExecutionError" else code
  | .timedOut _ => "STEP_TIMEOUT"
  | .badDuration _ => "INVALID_DURATION"
  | .refused _ _ => "NOTIFY_FAILED"
  | .badPayload _ => "INVALID_WEBHOOK_PAYLOAD"

/-- What a problem is about. -/
def details : Problem → Json
  | .general _ _ details | .stepFailed _ _ details => details
  | .flowNotFound id | .flowExists id => .obj [("flow_id", .str id)]
  | .timedOut ms => .obj [("timeout_ms", .int ms)]
  | .badDuration text => .obj [("duration", .str text)]
  | .refused status _ => .obj [("status_code", .int status)]
  | .badPayload _ => .obj []

end Problem

end Cadence
