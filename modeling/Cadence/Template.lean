/-
Values by path, and texts with placeholders.

A path is a row of segments between dots.  A segment selects a member of an object by name or an
item of an array by number; anything else is a dead end.  A segment of digit signs that writes no
number, such as a superscript, is refused where an item number is due.

A placeholder is written `${path}`.  The text between the braces is trimmed, looked up in the
results of a run, and replaced by the text of the value found, or by a note that it is missing.
The pieces of a template are found in one pass from left to right, so replaced text is not searched
again.

* `Json.lookup` — the value at a path, `none` when there is none;
* `Template.pieces` — a template as literal text and placeholders;
* `interpolate` — the text with every placeholder replaced.
-/
import Cadence.Json.Print
import Cadence.Decimal.Reading

namespace Cadence

/-- The results of a run: a value for each fetch id. -/
abbrev Results := List (String × Json)

/-- The item number that a segment writes, if it consists of digit signs. -/
def itemNumber? (segment : List Char) : Option (Except Decimal.IntegerFault Nat) :=
  if !segment.isEmpty && segment.all Text.isDigitSign then
    let digits := segment.filterMap Text.digitValue?
    if digits.length < segment.length then some (.error (.malformed (String.ofList segment)))
    else if Decimal.maxIntegerDigits < digits.length then some (.error (.tooLong digits.length))
    else some (.ok (Decimal.digitsValue digits))
  else none

namespace Json

/-- One step from a value: the member or item that a segment selects. -/
def step (segment : List Char) : Json → Except Decimal.IntegerFault (Option Json)
  | .obj members => .ok (members.lookup (String.ofList segment))
  | .arr items =>
    match itemNumber? segment with
    | some n => n.map (items[·]?)
    | none => .ok none
  | _ => .ok none

/-- Follows segments from a value. -/
def follow : List (List Char) → Json → Except Decimal.IntegerFault (Option Json)
  | [], v => .ok (some v)
  | segment :: segments, v =>
    match step segment v with
    | .error e => .error e
    | .ok none => .ok none
    | .ok (some w) => follow segments w

/-- The value at a path; the empty path leads nowhere. -/
def lookup (path : String) (v : Json) : Except Decimal.IntegerFault (Option Json) :=
  if path.isEmpty then .ok none else follow (Text.splitChars '.' path.toList) v

/-- The value at a path, null when there is none. -/
def lookupOrNull (path : String) (v : Json) : Except Decimal.IntegerFault Json :=
  (lookup path v).map (·.getD .null)

/-- The text of a value inside other text: JSON for containers, the characters of a string. -/
def text : Json → String
  | .null => "None"
  | .bool b => if b then "true" else "false"
  | .int n => String.ofList (intChars n)
  | .float x => Decimal.text x
  | .str s => s
  | v => render v

/-- The text of a value inside other text, if its integers can be written. -/
def shown (v : Json) : Except Decimal.IntegerFault String :=
  if v.isShort then .ok v.text else .error .unwritable

end Json

namespace Template

/-- A part of a template. -/
inductive Piece where
  | literal (c : Char)
  | placeholder (body : List Char)
  deriving DecidableEq, Repr

/-- The body of a placeholder whose opening brace has been read, and what follows its closing brace.
The body is not empty and has no closing brace. -/
def body? (cs : List Char) : Option (List Char × List Char) :=
  match cs.takeWhile (· != '\x7d'), cs.dropWhile (· != '\x7d') with
  | c :: body, _ :: rest => some (c :: body, rest)
  | _, _ => none

/-- A placeholder at the beginning of the characters: its body, and what follows. -/
def placeholder? : List Char → Option (List Char × List Char)
  | '$' :: '\x7b' :: cs => body? cs
  | _ => none

theorem body?_length {cs body rest : List Char} (h : body? cs = some (body, rest)) :
    rest.length < cs.length := by
  unfold body? at h
  split at h
  · rename_i c b d r hd ht
    simp only [Option.some.injEq, Prod.mk.injEq] at h
    have := List.takeWhile_append_dropWhile (p := (· != '\x7d')) (l := cs)
    rw [hd, ht] at this
    have hl := congrArg List.length this
    simp at hl
    obtain ⟨_, rfl⟩ := h
    omega
  · simp at h

theorem placeholder?_length {cs body rest : List Char}
    (h : placeholder? cs = some (body, rest)) : rest.length < cs.length := by
  unfold placeholder? at h
  split at h
  · have := body?_length h
    simp
    omega
  · simp at h

/-- The pieces of a template, from left to right. -/
def pieces (cs : List Char) : List Piece :=
  match h : placeholder? cs with
  | some (body, rest) =>
    have := placeholder?_length h
    .placeholder body :: pieces rest
  | none =>
    match cs with
    | [] => []
    | c :: rest => .literal c :: pieces rest
  termination_by cs.length
  decreasing_by
    · assumption
    · simp

/-- What stands for a placeholder in the finished text. -/
def fill (results : Results) (body : List Char) : Except Decimal.IntegerFault (List Char) := do
  let path := String.ofList (Text.stripWhile Text.isBlank body)
  match ← (Json.obj results).lookup path with
  | none | some .null => pure ("[missing ".toList ++ path.toList ++ [']'])
  | some v => (v.shown).map String.toList

/-- The finished text of a row of pieces. -/
def fillAll (results : Results) : List Piece → Except Decimal.IntegerFault (List Char)
  | [] => .ok []
  | .literal c :: rest => do
    let after ← fillAll results rest
    pure (c :: after)
  | .placeholder body :: rest => do
    let value ← fill results body
    let after ← fillAll results rest
    pure (value ++ after)

end Template

/-- A text with every placeholder replaced by what the results hold at its path. -/
def interpolate (results : Results) (template : String) : Except Decimal.IntegerFault String :=
  (Template.fillAll results (Template.pieces template.toList)).map String.ofList

end Cadence
