/-
The steps of a flow.

A step fetches a response, waits, stops the run unless a rule or several rules hold, writes a line
to the log of the run, or notifies a service.
-/
import Cadence.Rule

namespace Cadence

/-- The methods of a fetch. -/
inductive Method where
  | get | post | put | delete | patch
  deriving DecidableEq, Inhabited, Repr

/-- How a method is written. -/
def Method.word : Method → String
  | .get => "GET"
  | .post => "POST"
  | .put => "PUT"
  | .delete => "DELETE"
  | .patch => "PATCH"

/-- All methods, in the order in which messages list them. -/
def Method.all : List Method := [.get, .post, .put, .delete, .patch]

/-- The kinds of service that can be notified. -/
inductive Channel where
  | slack | discord | teams | webhook
  deriving DecidableEq, Inhabited, Repr

/-- How a channel is written. -/
def Channel.word : Channel → String
  | .slack => "slack"
  | .discord => "discord"
  | .teams => "teams"
  | .webhook => "webhook"

/-- All channels, in the order in which messages list them. -/
def Channel.all : List Channel := [.slack, .discord, .teams, .webhook]

/-- A request whose response is kept under `id`. -/
structure Fetch where
  id : String
  url : String
  method : Method
  headers : Option (List (String × String))
  body : Option String
  /-- How many milliseconds the request may take. -/
  timeout : Option Nat
  deriving DecidableEq, Inhabited, Repr

/-- A message to a service. -/
structure Notice where
  channel : Channel
  url : String
  message : Option String
  payload : Option String
  /-- Paths whose values are written after the message. -/
  attached : Option (List String)
  deriving DecidableEq, Inhabited, Repr

/-- A step. -/
inductive Step where
  | fetch (fetch : Fetch)
  | delay (duration : String)
  | condition (rule : Rule)
  | logic (mode : Mode) (rules : List Rule)
  | log (message : String) (attached : Option (List String))
  | notify (notice : Notice)
  deriving Inhabited, Repr

namespace Step

/-- The kind of a step. -/
def kind : Step → String
  | .fetch _ => "fetch"
  | .delay _ => "delay"
  | .condition _ => "condition"
  | .logic .. => "logic"
  | .log .. => "log"
  | .notify _ => "notify"

/-- The name under which a step reports: the id of a fetch, the kind of any other step. -/
def label : Step → String
  | .fetch f => f.id
  | s => s.kind

/-- The id of a fetch. -/
def fetchId? : Step → Option String
  | .fetch f => some f.id
  | _ => none

end Step

end Cadence
