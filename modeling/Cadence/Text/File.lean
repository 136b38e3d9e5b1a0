/-
Files: their paths and their texts.

* `tidyPath` — a path without empty parts and without parts that stay where they are;
* `pathSuffix` — the last part of a path from its last point on;
* `fileText` — the text of a file.
-/
import Cadence.Text.Encoding

namespace Cadence.Text

/-- The parts of a path that lead somewhere. -/
def pathParts (s : String) : List String :=
  (splitOn '/' s).filter fun part => !part.isEmpty && part != "."

/-- What a path begins with: nothing, or where absolute paths begin. Two strokes are kept apart from
one, three are not. -/
def pathRoot (s : String) : String :=
  match s.toList with
  | '/' :: '/' :: '/' :: _ => "/"
  | '/' :: '/' :: _ => "//"
  | '/' :: _ => "/"
  | _ => ""

/-- A path without empty parts and without parts that stay where they are. -/
def tidyPath (s : String) : String :=
  let path := pathRoot s ++ "/".intercalate (pathParts s)
  if path.isEmpty then "." else path

/-- The last part of a path from its last point on; a point at the beginning or the end of that part
does not count. -/
def pathSuffix (s : String) : String :=
  match cutAt '.' (((pathParts s).getLastD "").toList.reverse) with
  | (after, some before) =>
    if after.isEmpty || before.isEmpty then "" else String.ofList ('.' :: after.reverse)
  | (_, none) => ""

/-- The folder that a path leads into. -/
def pathFolder (s : String) : String :=
  tidyPath (pathRoot s ++ "/".intercalate (pathParts s).dropLast)

/-- Line ends in the one form that counts as such, whether a text has them as carriage return, line
feed or both. -/
def plainLines : List Char → List Char
  | '\r' :: '\n' :: cs => '\n' :: plainLines cs
  | '\r' :: cs => '\n' :: plainLines cs
  | c :: cs => c :: plainLines cs
  | [] => []

/-- The text of a file. -/
def fileText (bytes : List UInt8) : Except Utf8Fault String :=
  (utf8Chars 0 bytes).map fun cs => String.ofList (plainLines cs)

end Cadence.Text
