/-
Reading scalars out of documents.

A scalar of another kind is accepted where its meaning is plain: a truth value or a number without
fraction as an integer, the usual words as a truth value, a text that writes a number as that
number.  Bytes count as the text that they encode.  A text is never made from anything else.

* `text`, `integer`, `number`, `truthValue`, `oneOf` — the readers;
* `positiveInteger`, `positiveNumber` — the readers with a bound.
-/
import Cadence.Document
import Cadence.Decimal.Reading
import Cadence.Validation.Issue

namespace Cadence.Validation

open Cadence.Text

/-- What a reader of texts makes of bytes; `defect` is reported where they encode no text. -/
def decoded {α : Type} (defect : Defect) (check : String → Checked α)
    (bs : List UInt8) : Checked α :=
  match String.fromUTF8? ⟨bs.toArray⟩ with
  | some s => check s
  | none => Checked.fail defect

/-- A text. -/
def text : Document → Checked String
  | .str s => .ok s
  | .bytes bs => decoded .notUnicode .ok bs
  | _ => Checked.fail .notText

/-- A text that is not empty. -/
def nonEmptyText (d : Document) : Checked String := do
  let s ← text d
  if s.isEmpty then Checked.fail .tooShort else pure s

/-- One of a few words. -/
def oneOf {α : Type} (options : List (String × α)) (d : Document) : Checked α :=
  let found : Option α :=
    match d with
    | .str s => options.lookup s
    | _ => none
  match found with
  | some a => .ok a
  | none => Checked.fail (.notOneOf (options.map (·.1)))

/-- One of a few words in any letter case. -/
def oneOfUpper {α : Type} (upper : String → String) (options : List (String × α)) (d : Document) :
    Checked α :=
  match d with
  | .str s => oneOf options (.str (upper s))
  | d => oneOf options d

/-- The least and the greatest integer that a floating-point number may stand for. -/
def wordBound : Float := 9223372036854775808.0

/-- The integer that a finite floating-point number without fraction is. -/
def wholeValue (x : Float) : Int :=
  if x < 0.0 then -((-x).toUInt64.toNat : Int) else x.toUInt64.toNat

/-- An integer from a floating-point number. -/
def integerOfFloat (x : Float) : Checked Int :=
  if x.isNaN || x.isInf then Checked.fail .notFinite
  else if x.floor != x then Checked.fail .fractionalInteger
  else if -wordBound < x && x < wordBound then .ok (wholeValue x)
  else Checked.fail .oversizedInteger

/-- Leading zeros and single underscores among them, down to the digit or point that matters.
`none` where something else follows. -/
def dropLeadingZeros (last : Char) : List Char → Option (List Char)
  | [] => some [last]
  | c :: cs =>
    if c = '0' then dropLeadingZeros '0' cs
    else if c = '_' && last != '_' then dropLeadingZeros '_' cs
    else if '1' ≤ c && c ≤ '9' then some (c :: cs)
    else if c = '.' then some (last :: c :: cs)
    else none

/-- Drops a point that only zeros follow. -/
def dropZeroFraction (cs : List Char) : List Char :=
  match cutAt '.' cs with
  | (whole, some fraction) => if fraction.all (· == '0') then whole else cs
  | _ => cs

/-- Drops underscores, each of which must stand between other characters. -/
def dropUnderscores (cs : List Char) : Option (List Char) :=
  if cs.head? == some '_' || cs.getLast? == some '_' then none
  else if (splitChars '_' cs).any (·.isEmpty) then none
  else some (cs.filter (· != '_'))

/-- The digits of an integer and its sign, rid of everything that does not change its value. -/
def integerDigits (cs : List Char) : Option (Bool × List Char) := do
  let cs := stripWhile isWhiteSpace cs
  let cs ← match cs with
    | '+' :: '-' :: _ => none
    | '+' :: rest => some rest
    | cs => some cs
  let cs ← match cs with
    | '0' :: rest => dropLeadingZeros '0' rest
    | c :: rest => if ('1' ≤ c && c ≤ '9') || c == '-' then some (c :: rest) else none
    | [] => none
  let cs ← dropUnderscores (dropZeroFraction cs)
  let (negative, ds) : Bool × List Char := match cs with
    | '-' :: ds => (true, ds)
    | ds => (false, ds)
  if ds.isEmpty || !ds.all isAsciiDigit || (ds.length > 1 && ds.head? == some '0') then none
  else some (negative, ds)

/-- An integer from a text. -/
def integerOfText (s : String) : Checked Int :=
  match integerDigits s.toList with
  | none => Checked.fail .unreadableInteger
  | some (negative, ds) =>
    if Decimal.maxIntegerDigits ≤ ds.length then Checked.fail .oversizedInteger
    else
      let n : Int := Decimal.digitsValue (ds.filterMap digitValue?)
      .ok (if negative then -n else n)

/-- An integer. -/
def integer : Document → Checked Int
  | .int n => .ok n
  | .bool b => .ok (if b then 1 else 0)
  | .float x => integerOfFloat x
  | .str s => integerOfText s
  | .bytes bs => decoded .unreadableInteger integerOfText bs
  | _ => Checked.fail .notInteger

/-- A floating-point number from a text. -/
def numberOfText (s : String) : Checked Float :=
  let cs := stripWhile isWhiteSpace s.toList
  if cs.all fun c => c.toNat < 0x80 && !isBlank c then
    match Decimal.float? (String.ofList cs) with
    | some x => .ok x
    | none => Checked.fail .unreadableNumber
  else Checked.fail .unreadableNumber

/-- A floating-point number. -/
def number : Document → Checked Float
  | .float x => .ok x
  | .int n => .ok (Decimal.nearestInt n)
  | .bool b => .ok (if b then 1.0 else 0.0)
  | .str s => numberOfText s
  | .bytes bs => decoded .unreadableNumber numberOfText bs
  | _ => Checked.fail .notNumber

/-- The words for truth values. -/
def truthWords : List (String × Bool) := [
  ("0", false), ("off", false), ("f", false), ("false", false), ("n", false), ("no", false),
  ("1", true), ("on", true), ("t", true), ("true", true), ("y", true), ("yes", true)]

/-- A truth value from an integer. -/
def truthOfInt (n : Int) : Checked Bool :=
  if n = 0 then .ok false else if n = 1 then .ok true else Checked.fail .unreadableTruthValue

/-- A truth value from a text. -/
def truthOfText (s : String) : Checked Bool :=
  match truthWords.lookup (String.ofList (s.toList.map Char.toLower)) with
  | some b => .ok b
  | none => Checked.fail .unreadableTruthValue

/-- A truth value. An integer beyond 64 bits is none at all. -/
def truthValue : Document → Checked Bool
  | .bool b => .ok b
  | .int n =>
    if -9223372036854775808 ≤ n ∧ n < 9223372036854775808 then truthOfInt n
    else Checked.fail .notTruthValue
  | .float x =>
    match integerOfFloat x with
    | .ok n => truthOfInt n
    | .error _ => Checked.fail .notTruthValue
  | .str s => truthOfText s
  | .bytes bs => decoded .unreadableTruthValue truthOfText bs
  | _ => Checked.fail .notTruthValue

/-- An integer above zero. -/
def positiveInteger (d : Document) : Checked Nat := do
  let n ← integer d
  if 0 < n then pure n.toNat else Checked.fail .notPositive

/-- A number above zero. -/
def positiveNumber (d : Document) : Checked Float := do
  let x ← number d
  if 0.0 < x then pure x else Checked.fail .notPositive

/-- Nothing, or what a reader accepts. -/
def optional {α : Type} (check : Document → Checked α) : Document → Checked (Option α)
  | .null => .ok none
  | d => (check d).map some

/-- A list of what a reader accepts. -/
def listOf {α : Type} (check : Document → Checked α) : Document → Checked (List α)
  | .seq items => Checked.each check 0 items
  | _ => Checked.fail .notList

/-- The place of a key of a mapping. -/
def placeOfKey : Document → Place
  | .int n => if n.natAbs < 9223372036854775808 then .index n else .name (toString n)
  | .bool b => .index (if b then 1 else 0)
  | .str s => .name s
  | k => .name k.inner

/-- The texts under the text keys of a mapping. -/
def textEntries : List (Document × Document) → Checked (List (String × String))
  | [] => .ok []
  | (k, v) :: rest =>
    let key := Checked.within (placeOfKey k) (Checked.within (.name "[key]") (text k))
    let value := Checked.within (placeOfKey k) (text v)
    Checked.apply (Checked.apply (Checked.apply (.ok fun k v rest => (k, v) :: rest) key) value)
      (textEntries rest)

/-- A mapping from texts to texts. Keys that encode one text are one key, with the last value. -/
def textMapping : Document → Checked (List (String × String))
  | .map entries => (textEntries entries).map collected
  | _ => Checked.fail .notMapping

/-- The value of a field that goes by one of several names, the first name that is there counting. A
field that is not there has the value `absent`, reported under its first name. -/
def fieldOr {α : Type} (names : List String) (absent : Checked α) (check : Document → Checked α)
    (entries : List (Document × Document)) : Checked α :=
  match names.findSome? fun n => (Document.member? n entries).map fun v => (n, v) with
  | some (n, v) => Checked.within (.name n) (check v)
  | none => Checked.within (.name (names.headD "")) absent

/-- The value of a field that must be there. -/
def required {α : Type} (name : String) (check : Document → Checked α)
    (entries : List (Document × Document)) : Checked α :=
  fieldOr [name] (Checked.fail .missing) check entries

/-- The value of a field that may be absent. -/
def withDefault {α : Type} (name : String) (default : α) (check : Document → Checked α)
    (entries : List (Document × Document)) : Checked α :=
  fieldOr [name] (.ok default) check entries

end Cadence.Validation
