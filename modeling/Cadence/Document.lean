/-
Documents: what people write in files, before it is known to be a flow or a configuration.

A document is richer than JSON: a mapping may have keys that are not texts, and dates, moments and
bytes stand beside the other scalars.

* `Document.ofJson` — a JSON value as a document;
* `Document.member?` — the value under a text key of a mapping;
* `Document.text` — a document inside a message.
-/
import Cadence.Json.Basic
import Cadence.Calendar.Iso
import Cadence.Text.Quoted

namespace Cadence

/-- A document. -/
inductive Document where
  | null
  | bool (value : Bool)
  | int (value : Int)
  | float (value : Float)
  | str (value : String)
  | bytes (value : List UInt8)
  | date (value : Calendar.Date)
  | moment (value : Calendar.Moment)
  | seq (items : List Document)
  | map (entries : List (Document × Document))
  deriving Inhabited, Repr

namespace Document

mutual

/-- A JSON value as a document. -/
def ofJson : Json → Document
  | .null => .null
  | .bool b => .bool b
  | .int n => .int n
  | .float x => .float x
  | .str s => .str s
  | .arr items => .seq (ofItems items)
  | .obj members => .map (ofMembers members)

/-- `ofJson` for each item. -/
def ofItems : List Json → List Document
  | [] => []
  | v :: vs => ofJson v :: ofItems vs

/-- `ofJson` for the value of each member. -/
def ofMembers : List (String × Json) → List (Document × Document)
  | [] => []
  | (n, v) :: rest => (.str n, ofJson v) :: ofMembers rest

end

/-- Whether a document is the given text. -/
def isText (s : String) : Document → Bool
  | .str t => t == s
  | _ => false

/-- The value under a text key. -/
def member? (name : String) (entries : List (Document × Document)) : Option Document :=
  (entries.find? fun e => e.1.isText name).map (·.2)

/-- A byte inside quoted bytes. -/
def byteChars (b : UInt8) : List Char :=
  if b == 0x27 then ['\\', '\'']
  else if b == 0x5c then ['\\', '\\']
  else if b == 0x0a then ['\\', 'n']
  else if b == 0x0d then ['\\', 'r']
  else if b == 0x09 then ['\\', 't']
  else if 0x20 ≤ b && b < 0x7f then [Char.ofNat b.toNat]
  else '\\' :: 'x' :: Text.hexDigits 2 b.toNat

/-- The numbers of a moment, from the year down to the last one that matters. -/
def momentNumbers (m : Calendar.Moment) : List Nat :=
  let wall := m.wall.toNat
  let d := Calendar.Date.ofDayNumber (wall / 86400000000)
  let seconds := wall / 1000000 % 86400
  let base := [d.year, d.month, d.day, seconds / 3600, seconds / 60 % 60]
  if wall % 1000000 != 0 then base ++ [seconds % 60, wall % 1000000]
  else if seconds % 60 != 0 then base ++ [seconds % 60]
  else base

/-- The distance of a clock from universal time, after its numbers. -/
def zoneText : Option Int → String
  | none => ""
  | some 0 => ", tzinfo=datetime.timezone.utc"
  | some micros => s!", tzinfo=datetime.timezone({Calendar.spanText micros})"

mutual

/-- A document inside a larger one, in a message: texts are quoted. -/
def inner : Document → String
  | .null => "None"
  | .bool b => if b then "True" else "False"
  | .int n => toString n
  | .float x => Decimal.text x
  | .str s => Text.quoted s
  | .bytes bs => "b'" ++ String.ofList (bs.flatMap byteChars) ++ "'"
  | .date d => s!"datetime.date({d.year}, {d.month}, {d.day})"
  | .moment m =>
    "datetime.datetime(" ++ ", ".intercalate ((momentNumbers m).map toString) ++
      zoneText m.offset ++ ")"
  | .seq items => "[" ++ innerItems items ++ "]"
  | .map entries => "\x7b" ++ innerEntries entries ++ "\x7d"

/-- Items between commas. -/
def innerItems : List Document → String
  | [] => ""
  | [v] => inner v
  | v :: vs => inner v ++ ", " ++ innerItems vs

/-- Entries between commas. -/
def innerEntries : List (Document × Document) → String
  | [] => ""
  | [(k, v)] => inner k ++ ": " ++ inner v
  | (k, v) :: rest => inner k ++ ": " ++ inner v ++ ", " ++ innerEntries rest

end

/-- A document in a message: a text as it is, a date or moment in its ISO notation. -/
def text : Document → String
  | .str s => s
  | .date d =>
    String.ofList
      ((Calendar.Moment.isoChars ⟨(Calendar.dayNumber d : Int) * Calendar.day, none⟩).take
      10)
  | .moment m => m.isoText.replace "T" " "
  | v => v.inner

end Document

end Cadence
