/-
How the documents of records are written down and read again.

Documents become JSON text and are read from it again.  Not every document can be written:
it may be nested too deeply, or a text in it, in which the replacement character stands for
half of a surrogate pair, is not one of characters.  Not every text that was written can be
read: whether it can depends on how the document is nested and on its numbers, and not on
its texts.

* `Json.outline` — what a document is apart from its texts and truth values;
* `Codec` — which documents cannot be written, and which cannot be read again;
* `Codec.exact`, `Codec.limited` — a codec without limits, and one with the usual ones.
-/
import Cadence.Json.Print

namespace Cadence

namespace Json

/-- Whether a value is a text, a truth value or null. -/
def isPlain : Json → Bool
  | .null | .bool _ | .str _ => true
  | _ => false

mutual

/-- A value without its texts and truth values. Null stands for them in lists, and objects
are without the members that hold them. -/
def outline : Json → Json
  | .int n => .int n
  | .float x => .float x
  | .arr items => .arr (itemsOutline items)
  | .obj members => .obj (membersOutline members)
  | _ => .null

/-- `outline` for each item. -/
def itemsOutline : List Json → List Json
  | [] => []
  | v :: vs => outline v :: itemsOutline vs

/-- `outline` for the value of each member that is kept. -/
def membersOutline : List (String × Json) → List (String × Json)
  | [] => []
  | (n, v) :: rest =>
    if v.isPlain then membersOutline rest else (n, outline v) :: membersOutline rest

end

mutual

/-- How many lists and objects are inside each other. -/
def nesting : Json → Nat
  | .arr items => itemsNesting items + 1
  | .obj members => membersNesting members + 1
  | _ => 0

/-- The deepest `nesting` of the items. -/
def itemsNesting : List Json → Nat
  | [] => 0
  | v :: vs => max (nesting v) (itemsNesting vs)

/-- The deepest `nesting` of the values of the members. -/
def membersNesting : List (String × Json) → Nat
  | [] => 0
  | (_, v) :: rest => max (nesting v) (membersNesting rest)

end

end Json

/-- Why a document cannot be written down, and why what was written of one with a given
outline cannot be read. -/
structure Codec where
  unwritable? : Json → Option String
  unreadable? : Json → Option String

namespace Codec

/-- Everything is written and read. -/
def exact : Codec := ⟨fun _ => none, fun _ => none⟩

instance : Inhabited Codec := ⟨exact⟩

/-- Nesting is limited in writing, and more so in reading, where integers may not have too
many digits. -/
def limited : Codec where
  unwritable? v := if 258 < v.nesting
    then some "Circular reference detected (depth exceeded)" else none
  unreadable? v :=
    if 200 < v.nesting then some "recursion limit exceeded"
    else if v.isShort then none
    else some "number out of range"

end Codec

end Cadence
