/-
The tags of YAML scalars.

A plain scalar without a tag has the tag that its characters suggest: a truth value, a
number, null, a point in time, or one of two marks; failing that it is a text.

* `plainTag` — the tag of a plain scalar;
* `timestamp?` — the parts of a point in time.
-/
import Cadence.Yaml.Cursor
import Cadence.Text.Blank
import Cadence.Text.Digit

namespace Cadence.Yaml

open Cadence.Text

/-- The beginning of all tags that have a meaning of their own. -/
def tagStart : String := "tag:yaml.org,2002:"

/-- A tag with a meaning of its own. -/
def standardTag (name : String) : String := tagStart ++ name

/-- Whether characters are not empty and all of a class. -/
def isRunOf (p : Char → Bool) (cs : List Char) : Bool := !cs.isEmpty && cs.all p

/-- A digit or a low line. -/
def isDigitOrLine (c : Char) : Bool := isAsciiDigit c || c == '_'

/-- Drops a sign. -/
def dropSign : List Char → List Char
  | '+' :: cs | '-' :: cs => cs
  | cs => cs

/-- A digit and then digits and low lines. -/
def isDigitRun : List Char → Bool
  | c :: cs => isAsciiDigit c && cs.all isDigitOrLine
  | [] => false

/-- A part of a number to the base sixty after the first one. -/
def isSixtieth : List Char → Bool
  | [c] => isAsciiDigit c
  | [c, d] => '0' ≤ c && c ≤ '5' && isAsciiDigit d
  | _ => false

/-- A number to the base sixty: parts between colons, of which there are two at least. -/
def isSexagesimal (cs : List Char) : Bool :=
  match splitChars ':' cs with
  | first :: second :: rest => isDigitRun first && (second :: rest).all isSixtieth
  | _ => false

/-- Whether a plain scalar is an integer: binary, octal, decimal, hexadecimal or to the base
sixty. -/
def isInteger (cs : List Char) : Bool :=
  let cs := dropSign cs
  match cs with
  | '0' :: 'b' :: ds => isRunOf (fun c => c == '0' || c == '1' || c == '_') ds
  | '0' :: 'x' :: ds =>
    isRunOf (fun c => isDigitOrLine c || ('a' ≤ c && c ≤ 'f') || ('A' ≤ c && c ≤ 'F')) ds
  | ['0'] => true
  | '0' :: ds => ds.all fun c => ('0' ≤ c && c ≤ '7') || c == '_'
  | _ => isDigitRun cs || isSexagesimal cs

/-- An exponent with a sign, or nothing. -/
def isExponent : List Char → Bool
  | [] => true
  | e :: sign :: ds =>
    (e == 'e' || e == 'E') && (sign == '+' || sign == '-') && isRunOf isAsciiDigit ds
  | _ => false

/-- Digits and low lines, and then an exponent or nothing. -/
def isFraction (cs : List Char) : Bool := isExponent (cs.dropWhile isDigitOrLine)

/-- Whether a plain scalar is a floating-point number. -/
def isFloat (cs : List Char) : Bool :=
  let unsigned := dropSign cs
  let s := String.ofList unsigned
  if s == ".inf" || s == ".Inf" || s == ".INF" then true
  else if ['.', 'n', 'a', 'n'] == cs || ['.', 'N', 'a', 'N'] == cs ||
    ['.', 'N', 'A', 'N'] == cs then true
  else
    match cutAt '.' unsigned with
    | ([], some rest) => cs.head? == some '.' && (rest.head?.any isAsciiDigit) && isFraction rest
    | (whole, some rest) =>
      (isDigitRun whole && isFraction rest) || (isSexagesimal whole && rest.all isDigitOrLine)
    | _ => false

/-- The words for truth values. -/
def truthWords : List (String × Bool) := [
  ("yes", true), ("Yes", true), ("YES", true), ("no", false), ("No", false), ("NO", false),
  ("true", true), ("True", true), ("TRUE", true), ("false", false), ("False", false),
    ("FALSE", false),
  ("on", true), ("On", true), ("ON", true), ("off", false), ("Off", false), ("OFF", false)]

/-- The words for null. -/
def nullWords : List String := ["", "~", "null", "Null", "NULL"]

/-- A point in time: the digits of its parts. -/
structure Timestamp where
  year : List Char
  month : List Char
  day : List Char
  /-- Hour, minute, second and fraction. -/
  clock : Option (List Char × List Char × List Char × List Char)
  /-- Whether the distance from universal time is negative, its hours and its minutes. -/
  offset : Option (Bool × List Char × List Char)
  deriving DecidableEq, Repr

/-- Digits from the beginning on, at least `least` and at most `most` of them. -/
def digitsUpTo? (least most : Nat) (cs : List Char) : Option (List Char × List Char) :=
  let ds := (cs.take most).takeWhile isAsciiDigit
  if least ≤ ds.length then some (ds, cs.drop ds.length) else none

/-- What follows a character that must be there. -/
def after? (c : Char) : List Char → Option (List Char)
  | d :: rest => if c = d then some rest else none
  | [] => none

/-- The distance from universal time at the end of a point in time. -/
def timestampOffset? (cs : List Char) : Option (Option (Bool × List Char × List Char)) :=
  match cs.dropWhile (fun c => c == ' ' || c == '\t') with
  | [] => if cs.isEmpty then some none else none
  | ['Z'] => some (some (false, ['0'], ['0']))
  | sign :: rest => do
    if sign != '+' && sign != '-' then none
    let (h, rest) ← digitsUpTo? 1 2 rest
    match rest with
    | [] => some (some (sign == '-', h, ['0']))
    | ':' :: rest =>
      let (m, rest) ← digitsUpTo? 2 2 rest
      if rest.isEmpty then some (some (sign == '-', h, m)) else none
    | _ => none

/-- The parts of a point in time. -/
def timestamp? (cs : List Char) : Option Timestamp := do
  let (y, rest) ← digitsUpTo? 4 4 cs
  let (m, rest) ← digitsUpTo? 1 2 (← after? '-' rest)
  let (d, rest) ← digitsUpTo? 1 2 (← after? '-' rest)
  match rest with
  | [] => some ⟨y, m, d, none, none⟩
  | c :: rest =>
    let rest ←
      if c == 'T' || c == 't' then some rest
      else if c == ' ' || c == '\t' then some (rest.dropWhile fun c => c == ' ' || c == '\t')
      else none
    let (h, rest) ← digitsUpTo? 1 2 rest
    let (mi, rest) ← digitsUpTo? 2 2 (← after? ':' rest)
    let (s, rest) ← digitsUpTo? 2 2 (← after? ':' rest)
    let (fraction, rest) := match rest with
      | '.' :: rest => (rest.takeWhile isAsciiDigit, rest.dropWhile isAsciiDigit)
      | rest => ([], rest)
    some ⟨y, m, d, some (h, mi, s, fraction), ← timestampOffset? rest⟩

/-- Whether a plain scalar is a point in time. A date alone has two digits for month and day. -/
def isTimestamp (cs : List Char) : Bool :=
  match timestamp? cs with
  | some t => t.clock.isSome || (t.month.length = 2 && t.day.length = 2)
  | none => false

/-- The tag of a plain scalar. -/
def plainTag (s : String) : String :=
  let cs := s.toList
  standardTag (
    if (truthWords.lookup s).isSome then "bool"
    else if isFloat cs then "float"
    else if isInteger cs then "int"
    else if s == "<<" then "merge"
    else if nullWords.contains s then "null"
    else if isTimestamp cs then "timestamp"
    else if s == "=" then "value"
    else "str")

end Cadence.Yaml
