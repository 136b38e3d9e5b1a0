/-
The state of a run.

* `Context` — the results and the log that the steps of a run share, and the cookies kept;
* `StepFault` — why a step fails, and how that is worded.
-/
import Cadence.Duration
import Cadence.Problem
import Cadence.Http.Send

namespace Cadence

/-- What the steps of a run share. -/
structure Context where
  results : Results
  log : List String
  cookies : Http.Jar
  deriving Inhabited, Repr

/-- The state at the beginning of a run. -/
def Context.fresh (log : List String) : Context := ⟨[], log, []⟩

/-- Adds a line to the log. -/
def Context.logged (c : Context) (line : String) : Context := { c with log := c.log ++ [line] }

/-- Keeps a result under an id. -/
def Context.keep (c : Context) (id : String) (value : Json) : Context :=
  { c with results := put id value c.results }

/-- Why a step fails. -/
inductive StepFault where
  | integer (fault : Decimal.IntegerFault)
  | rule (fault : RuleFault)
  | problem (problem : Problem)
  | send (fault : Http.SendFault)
  | body (fault : Http.UnmarkedFault)
  /-- A number in a payload has too many digits. -/
  | payload (error : Json.ReadError)
  /-- A payload holds a number that is not finite. -/
  | notFinite
  /-- A payload holds half of a surrogate pair. -/
  | half (fault : Json.HalfFault)
  /-- A duration is beyond all numbers of seconds. -/
  | endless

/-- The wording of a fault. -/
def StepFault.message : StepFault → String
  | .integer f => f.message
  | .rule f => f.message
  | .problem p => p.message
  | .send f => f.message
  | .body f => f.message
  | .payload e => e.message
  | .half f => f.message
  | .notFinite => "Out of range float values are not JSON compliant"
  | .endless => "integer division result too large for a float"

end Cadence
