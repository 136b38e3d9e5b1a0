/-
JSON values.

Integers have any size and are kept apart from floating-point numbers, since `5` and `5.0` are
written differently.  The members of an object stand in the order in which their names first
appeared, each name once.

* `put` — gives a name its value, in place if the name is known and at the end otherwise;
* `collected` — members that may repeat a name: the first place and the last value count;
* `Json.object` — the object of such members.
-/
namespace Cadence

/-- A JSON value. -/
inductive Json where
  | null
  | bool (value : Bool)
  | int (value : Int)
  | float (value : Float)
  | str (value : String)
  | arr (items : List Json)
  | obj (members : List (String × Json))
  deriving Inhabited, Repr

/-- Gives a name its value, in place if the name is known and at the end otherwise. -/
def put {α : Type} (name : String) (value : α) : List (String × α) → List (String × α)
  | [] => [(name, value)]
  | (n, v) :: rest => if n = name then (n, value) :: rest else (n, v) :: put name value rest

/-- The members of a list that may repeat a name. -/
def collected {α : Type} (members : List (String × α)) : List (String × α) :=
  members.foldl (fun known (n, v) => put n v known) []

/-- The names of a list of members. -/
def names {α : Type} (members : List (String × α)) : List String := members.map (·.1)

namespace Json

/-- An object from members that may repeat a name. -/
def object (members : List (String × Json)) : Json := .obj (collected members)

/-- The value under a name, if the value is an object that has it. -/
def get? (name : String) : Json → Option Json
  | .obj members => members.lookup name
  | _ => none

/-- An optional text, null when absent. -/
def ofText? : Option String → Json
  | none => .null
  | some s => .str s

end Json

end Cadence
