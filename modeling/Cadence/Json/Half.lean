/-
Halves of surrogate pairs in JSON.

An escape may stand for half of a surrogate pair on its own.  A value with such a string in
it can be read and kept, but no encoding writes it.  Where the halves are is told by reading
the text twice, with other characters for them: the two values differ just there.

* `Json.half?` — the first halves in a value, and where they are in its compact text;
* `HalfFault.message` — the same in words.
-/
import Cadence.Json.Print
import Cadence.Json.Read

namespace Cadence.Json

/-- Halves of surrogate pairs in a row, and how many characters are before them. -/
structure HalfFault where
  codes : List Nat
  place : Nat
  deriving DecidableEq, Repr

/-- The wording of a fault. -/
def HalfFault.message (f : HalfFault) : String :=
  match f.codes with
  | [n] =>
    s!"'utf-8' codec can't encode character '\\u{String.ofList (Text.hexDigits 4 n)}' in position "
      ++ s!"{f.place}: surrogates not allowed"
  | ns =>
    s!"'utf-8' codec can't encode characters in position {f.place}-{f.place + ns.length - 1}: " ++
      "surrogates not allowed"

/-- A character that stands for half of a surrogate pair, in the private planes. -/
def halfIn (plane n : Nat) : Char := Char.ofNat (0x10000 * plane + n)

/-- The characters of a text up to the first one that is the same in another text. -/
def differing : List Char → List Char → List Char
  | c :: cs, d :: ds => if c = d then [] else c :: differing cs ds
  | _, _ => []

/-- The first characters of a text that are not the same in another text. -/
def firstDifference? : List Char → List Char → Option (List Char × Nat)
  | c :: cs, d :: ds =>
    if c = d then (firstDifference? cs ds).map fun (others, place) => (others, place + 1)
    else some (differing (c :: cs) (d :: ds), 0)
  | _, _ => none

/-- The first halves of surrogate pairs in the value that `value` gives for each choice of
characters that stand for them. -/
def half? (value : (Nat → Char) → Option Json) : Option HalfFault := do
  let v ← value (halfIn 15)
  let w ← value (halfIn 16)
  let (cs, place) ← firstDifference? v.render.toList w.render.toList
  pure ⟨cs.map fun c => c.toNat - 0x10000 * 15, place⟩

end Cadence.Json
