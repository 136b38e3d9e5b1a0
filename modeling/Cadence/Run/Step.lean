/-
What each step of a run does.

* `Step.perform` — the task of a step: its output or why it fails, and the state of the run
  after it;
* `Step.stopLine?` — the line for the log with which a step ends the run before its last step.
-/
import Cadence.Run.Context

namespace Cadence

open Http

/-- A number of milliseconds in microseconds, unless it is beyond all numbers of seconds. -/
def microsOfMillis (ms : Nat) : Except StepFault Nat :=
  if (Decimal.nearest ms (-3)).isInf then .error .endless else .ok (1000 * ms)

/-- A text with placeholders in a run; no text is the empty one. -/
def fillText (c : Context) (template : Option String) : Except StepFault String :=
  (interpolate c.results (template.getD "")).mapError .integer

/-- The values at the attached paths, each path once. -/
def attachedValues (c : Context) (paths : List String) : Except StepFault (List (String × Json)) :=
  paths.eraseDups.mapM fun p =>
    (((Json.obj c.results).lookupOrNull p).map fun v => (p, v)).mapError .integer

/-- A message followed by the values at the attached paths, if there are any. -/
def withAttached (c : Context) (message : String) (paths : Option (List String)) :
    Except StepFault String := do
  match ← attachedValues c (paths.getD []) with
  | [] => pure message
  | values =>
    let shown ← (Json.obj values).rendered.mapError .integer
    pure s!"{message} {shown}"

namespace Fetch

/-- The headers of a fetch. A body that looks like JSON is declared as such. -/
def sentHeaders (f : Fetch) : Headers :=
  let hs : Headers := f.headers.getD []
  let looksLikeJson := match Text.stripWhile Text.isBlank (f.body.getD "").toList with
    | '\x7b' :: _ | '[' :: _ => true
    | _ => false
  if looksLikeJson && !hs.has "content-type" then hs ++
    [("Content-Type", "application/json")] else hs

/-- What a fetch keeps of a response. The status must be short enough to be written to the log. -/
def output (r : Response) : Except StepFault Json := do
  let body ← r.value.mapError .body
  if (Json.int r.status).isShort then
    pure (.obj [
      ("status", .int r.status), ("headers", .obj (r.headers.merged.map fun (n, v) => (n, .str v))),
      ("body", body)])
  else throw (.integer .unwritable)

/-- Sends the request of a fetch. A timeout under a limit of the step is reported as such. -/
def perform (client : Client) (f : Fetch) (c : Context) :
    Task (Except StepFault Json × Context) :=
  do
  match f.timeout.mapM microsOfMillis,
    Request.build f.method f.url f.sentHeaders [] (f.body.getD "") with
  | .error e, _ => return (.error e, c)
  | _, .error e => return (.error (.send e), c)
  | .ok limit, .ok request =>
    let (result, cookies) ← send client limit c.cookies request
    let c := { c with cookies := cookies }
    match result, f.timeout with
    | .error e, some ms =>
      return (.error (if e.isTimeout then .problem (.timedOut ms) else .send e), c)
    | .error e, none => return (.error (.send e), c)
    | .ok response, _ =>
      match output response with
      | .error e => return (.error e, c)
      | .ok value =>
        let c := c.logged s!"[fetch:{f.id}] {f.method.word} {f.url} -> {response.status}"
        return (.ok value, c.keep f.id value)

end Fetch

namespace Notice

/-- The payload of a notification. -/
def payloadOf (n : Notice) (c : Context) : Except StepFault Json := do
  let message ← fillText c n.message
  match n.channel with
  | .slack | .teams => pure (.obj [("text", .str (← withAttached c message n.attached))])
  | .discord => pure (.obj [("content", .str (← withAttached c message n.attached))])
  | .webhook =>
    if (n.payload.getD "").isEmpty then pure (.obj [("message", .str message)])
    else
      let raw ← fillText c n.payload
      match Json.read raw with
      | .ok v => pure v
      | .error (.tooLong digits) => throw (.payload (.tooLong digits))
      | .error e => throw (.problem (.badPayload e.message))

/-- The halves of surrogate pairs that a notification would send. Only a payload of its own
has any. -/
def half? (n : Notice) (c : Context) : Option Json.HalfFault :=
  match n.channel, fillText c n.payload with
  | .webhook, .ok raw => Json.half? fun half => (Json.readWith half raw).toOption
  | _, _ => none

/-- The request of a notification. The payload null is no body at all. -/
def request (n : Notice) (c : Context) : Except StepFault Request := do
  let v ← n.payloadOf c
  let build (extra : Headers) (body : String) :=
    (Request.build .post n.url [] extra body).mapError .send
  match v with
  | .null => build [] ""
  | v =>
    let r ← build [("content-type", "application/json")] v.render
    if v.allFinite then
      match n.half? c with
      | none => pure r
      | some f => throw (.half f)
    else throw .notFinite

/-- Sends a notification. Any status but one of success is a failure. -/
def perform (client : Client) (n : Notice) (c : Context) :
    Task (Except StepFault Json × Context) :=
  do
  match n.request c with
  | .error e => return (.error e, c)
  | .ok request =>
    let (result, cookies) ← send client none c.cookies request
    let c := { c with cookies := cookies }
    match result with
    | .error e => return (.error (.send e), c)
    | .ok response =>
      if !(Json.int response.status).isShort then return (.error (.integer .unwritable), c)
      let c := c.logged s!"[notify:{n.channel.word}] status={response.status}"
      if response.isSuccess then return (.ok (.bool true), c)
      else
        match response.text with
        | .error e => return (.error (.body e), c)
        | .ok text => return (.error (.problem (.refused response.status text)), c)

end Notice

namespace Step

/-- Decides a rule and logs the decision. -/
def performCondition (rule : Rule) (c : Context) : Except StepFault Json × Context :=
  match rule.holds c.results with
  | .error e => (.error (.rule e), c)
  | .ok b =>
    (.ok (.bool b), c.logged
      (s!"[condition] {rule.input} {rule.operator.symbol} {rule.target.toJson.text} -> " ++
        (Json.bool b).text))

/-- Decides several rules and logs the decision. -/
def performLogic (mode : Mode) (rules : List Rule) (c : Context) :
    Except StepFault Json × Context :=
  match mode.holds rules c.results with
  | .error e => (.error (.rule e), c)
  | .ok b =>
    (.ok (.bool b),
      c.logged s!"[logic] {rules.length} conditions ({mode.word}) -> {(Json.bool b).text}")

/-- Waits. -/
def performDelay (duration : String) (c : Context) : Task (Except StepFault Json × Context) :=
  match Duration.parse duration with
  | .error (.malformed text) => pure (.error (.problem (.badDuration text)), c)
  | .error (.tooLong digits) => pure (.error (.integer (.tooLong digits)), c)
  | .ok ms =>
    match microsOfMillis ms with
    | .error e => pure (.error e, c)
    | .ok micros => do
      Task.wait micros
      return (.ok (.bool true), c)

/-- Writes to the log. -/
def performLog (message : String) (attached : Option (List String)) (c : Context) :
    Except StepFault Json × Context :=
  match (do withAttached c (← fillText c (some message)) attached : Except StepFault String) with
  | .error e => (.error e, c)
  | .ok line => (.ok (.bool true), c.logged s!"[log] {line}")

/-- What a step does: its output or why it fails, and the state of the run after it. -/
def perform (client : Client) (s : Step) (c : Context) : Task (Except StepFault Json × Context) :=
  match s with
  | .fetch f => f.perform client c
  | .delay duration => performDelay duration c
  | .condition rule => pure (performCondition rule c)
  | .logic mode rules => pure (performLogic mode rules c)
  | .log message attached => pure (performLog message attached c)
  | .notify n => n.perform client c

/-- The line with which a step ends the run: a rule or several rules that do not hold do so. -/
def stopLine? (s : Step) (output : Json) : Option String :=
  match s, output with
  | .condition rule, .bool false =>
    some s!"[condition:{rule.input}] Evaluated false, stopping execution."
  | .logic _ _, .bool false => some "[logic] Evaluated false, stopping execution."
  | _, _ => none

end Step

end Cadence
