/-
JSON text in its compact form.

No blanks are written.  Characters outside ASCII stand for themselves; in strings the quote, the
backslash and the controls are escaped.  Numbers that are not finite are written as the words
`NaN`, `Infinity` and `-Infinity`, which `Read` accepts again.

* `Json.chars`, `Json.render` — the compact text;
* `Json.escapeChar` — how one character of a string is written;
* `Json.isShort`, `Json.rendered` — the compact text, unless an integer has too many digits.
-/
import Cadence.Json.Basic
import Cadence.Text.Quoted
import Cadence.Decimal.Notation
import Cadence.Decimal.Reading

namespace Cadence.Json

/-- How one character of a string is written. -/
def escapeChar (c : Char) : List Char :=
  if c = '"' then ['\\', '"']
  else if c = '\\' then ['\\', '\\']
  else if c = '\n' then ['\\', 'n']
  else if c = '\r' then ['\\', 'r']
  else if c = '\t' then ['\\', 't']
  else if c.toNat = 0x0c then ['\\', 'f']
  else if c.toNat = 0x08 then ['\\', 'b']
  else if c.toNat < 0x20 then '\\' :: 'u' :: Text.hexDigits 4 c.toNat
  else [c]

/-- A string between its quotes. -/
def stringChars (s : String) : List Char := '"' :: (s.toList.flatMap escapeChar ++ ['"'])

/-- The digits of an integer, with a minus sign if it is negative. -/
def intChars (n : Int) : List Char :=
  if n < 0 then '-' :: Decimal.natDigits n.natAbs else Decimal.natDigits n.natAbs

/-- The text of a floating-point number. -/
def floatChars (x : Float) : List Char := (Decimal.textWith "NaN" "Infinity" x).toList

mutual

/-- The compact text of a value, as characters. -/
def chars : Json → List Char
  | .null => ['n', 'u', 'l', 'l']
  | .bool true => ['t', 'r', 'u', 'e']
  | .bool false => ['f', 'a', 'l', 's', 'e']
  | .int n => intChars n
  | .float x => floatChars x
  | .str s => stringChars s
  | .arr [] => ['[', ']']
  | .arr (v :: vs) => '[' :: (chars v ++ itemChars vs)
  | .obj [] => ['\x7b', '\x7d']
  | .obj ((n, v) :: rest) => '\x7b' :: (stringChars n ++ ':' :: (chars v ++ memberChars rest))

/-- The items after the first one, and the closing bracket. -/
def itemChars : List Json → List Char
  | [] => [']']
  | v :: vs => ',' :: (chars v ++ itemChars vs)

/-- The members after the first one, and the closing brace. -/
def memberChars : List (String × Json) → List Char
  | [] => ['\x7d']
  | (n, v) :: rest => ',' :: (stringChars n ++ ':' :: (chars v ++ memberChars rest))

end

/-- The compact text of a value. -/
def render (v : Json) : String := String.ofList v.chars

mutual

/-- Whether no integer inside a value has too many digits to be written or read. -/
def isShort : Json → Bool
  | .int n => decide ((Decimal.natDigits n.natAbs).length ≤ Decimal.maxIntegerDigits)
  | .arr items => itemsShort items
  | .obj members => membersShort members
  | _ => true

/-- `isShort` for each item. -/
def itemsShort : List Json → Bool
  | [] => true
  | v :: vs => isShort v && itemsShort vs

/-- `isShort` for the value of each member. -/
def membersShort : List (String × Json) → Bool
  | [] => true
  | (_, v) :: rest => isShort v && membersShort rest

end

/-- The compact text of a value, if its integers can be written. -/
def rendered (v : Json) : Except Decimal.IntegerFault String :=
  if v.isShort then .ok v.render else .error .unwritable

mutual

/-- Whether every floating-point number inside a value is finite. -/
def allFinite : Json → Bool
  | .float x => !(x.isNaN || x.isInf)
  | .arr items => itemsFinite items
  | .obj members => membersFinite members
  | _ => true

/-- `allFinite` for each item. -/
def itemsFinite : List Json → Bool
  | [] => true
  | v :: vs => allFinite v && itemsFinite vs

/-- `allFinite` for the value of each member. -/
def membersFinite : List (String × Json) → Bool
  | [] => true
  | (_, v) :: rest => allFinite v && membersFinite rest

end

mutual

/-- The value with null in place of every number that is not finite. -/
def dropNonFinite : Json → Json
  | .float x => if x.isNaN || x.isInf then .null else .float x
  | .arr items => .arr (itemsDropNonFinite items)
  | .obj members => .obj (membersDropNonFinite members)
  | v => v

/-- `dropNonFinite` for each item. -/
def itemsDropNonFinite : List Json → List Json
  | [] => []
  | v :: vs => dropNonFinite v :: itemsDropNonFinite vs

/-- `dropNonFinite` for the value of each member. -/
def membersDropNonFinite : List (String × Json) → List (String × Json)
  | [] => []
  | (n, v) :: rest => (n, dropNonFinite v) :: membersDropNonFinite rest

end

end Cadence.Json
