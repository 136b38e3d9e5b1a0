/-
Flow ids.

The id of a flow is derived from its name: the maximal runs of ASCII letters and digits of the
lower-cased name, joined by single dashes.  A name without letters and digits has the empty id, and
such a name is refused by the rules for flows.
-/
import Cadence.Text.Blank
import Cadence.Text.Case

namespace Cadence.Flow

/-- The characters an id is made of, dashes apart. -/
def isIdChar (c : Char) : Bool := ('a' ≤ c && c ≤ 'z') || ('0' ≤ c && c ≤ '9')

/-- The runs of id characters of a text. -/
def idRuns (s : String) : List (List Char) := Text.runsOutside (fun c => !isIdChar c) s.toList

/-- Joins runs by single dashes. -/
def joinDashes (runs : List (List Char)) : List Char := List.intercalate ['-'] runs

/-- The id of a flow with the given name. -/
def idOfName (name : String) : String := String.ofList (joinDashes (idRuns (Text.lower name)))

end Cadence.Flow
