/-
Reading JSON text.

The grammar is that of JSON with three more number words, `NaN`, `Infinity` and `-Infinity`.
Controls inside strings are refused.  An object that repeats a name keeps the first place
and the last value.  A failure names its cause and the place of the character at which it
was seen.  An escape may stand for half of a surrogate pair on its own, which is no
character: the reader is told what stands for it.

* `Json.readWith` — the value of a whole text, with given characters for halves of surrogate pairs;
* `Json.read` — the value of a whole text, with the replacement character for them;
* `ReadError.message` — the cause with line, column and character number.

Every step works on the characters that are left; a place is kept as the number of characters left
there, and turned into a position when the message is written.
-/
import Cadence.Json.Basic
import Cadence.Decimal.Reading
import Cadence.Text.Encoding

namespace Cadence.Json

/-- What may be wrong with a JSON text. -/
inductive Fault where
  | noValue
  | noName
  | noColon
  | noComma
  | extraData
  | unterminated
  | control
  | badEscape
  | badCode
  | byteOrderMark
  deriving DecidableEq, Repr

/-- The wording of a fault. -/
def Fault.message : Fault → String
  | .noValue => "Expecting value"
  | .noName => "Expecting property name enclosed in double quotes"
  | .noColon => "Expecting ':' delimiter"
  | .noComma => "Expecting ',' delimiter"
  | .extraData => "Extra data"
  | .unterminated => "Unterminated string starting at"
  | .control => "Invalid control character at"
  | .badEscape => "Invalid \\escape"
  | .badCode => "Invalid \\uXXXX escape"
  | .byteOrderMark => "Unexpected UTF-8 BOM (decode using utf-8-sig)"

/-- A failed step: a fault with the number of characters left where it was seen, or an integer with
too many digits. -/
inductive Stop where
  | fault (fault : Fault) (left : Nat)
  | tooLong (digits : Nat)
  deriving DecidableEq, Repr

/-- The blanks of JSON. -/
def isJsonBlank (c : Char) : Bool := c == ' ' || c == '\t' || c == '\n' || c == '\r'

/-- Drops leading blanks. -/
def skipBlanks (cs : List Char) : List Char := cs.dropWhile isJsonBlank

section

-- what stands for half of a surrogate pair on its own
variable (half : Nat → Char)

/-- The character with a code. -/
def charOfCode (n : Nat) : Char :=
  if Text.isHalf n then half n else Char.ofNat n

/-- The character that a one-letter escape stands for. -/
def escaped? (c : Char) : Option Char :=
  if c = '"' || c = '\\' || c = '/' then some c
  else if c = 'b' then some '\x08'
  else if c = 'f' then some '\x0c'
  else if c = 'n' then some '\n'
  else if c = 'r' then some '\r'
  else if c = 't' then some '\t'
  else none

/-- A character by its code, after `\u`: the character and how many characters write it. Two codes
that form a surrogate pair are one character. -/
def readCode (cs : List Char) : Except Stop (Char × Nat) :=
  match Text.hexNumber? 4 cs with
  | none => .error (.fault .badCode (cs.length + 1))
  | some high =>
    let rest := cs.drop 4
    if rest.isEmpty then .error (.fault .badCode (cs.length + 1))
    else if 0xd800 ≤ high && high ≤ 0xdbff && 6 < rest.length && rest.take 2 == ['\\', 'u'] then
      match Text.hexNumber? 4 (rest.drop 2) with
      | none => .error (.fault .badCode (rest.length - 1))
      | some low =>
        if 0xdc00 ≤ low && low ≤ 0xdfff then
          .ok (Char.ofNat (0x10000 + (high - 0xd800) * 0x400 + (low - 0xdc00)), 10)
        else .ok (charOfCode half high, 4)
    else .ok (charOfCode half high, 4)

/-- An escape, after its backslash: the character it stands for and how many characters write it. -/
def readEscape (opening : Nat) : List Char → Except Stop (Char × Nat)
  | [] => .error (.fault .unterminated opening)
  | 'u' :: cs => (readCode half cs).map fun (c, n) => (c, n + 1)
  | c :: cs =>
    match escaped? c with
    | some d => .ok (d, 1)
    | none => .error (.fault .badEscape (cs.length + 2))

/-- The characters of a string up to its closing quote, and what follows. `opening` is the place of
the opening quote. -/
def readString (opening : Nat) (cs : List Char) : Except Stop (List Char × List Char) :=
  match cs with
  | [] => .error (.fault .unterminated opening)
  | c :: rest =>
    if c = '"' then .ok ([], rest)
    else if c = '\\' then do
      let (d, used) ← readEscape half opening rest
      let (ds, after) ← readString opening (rest.drop used)
      pure (d :: ds, after)
    else if c.toNat < 0x20 then .error (.fault .control (rest.length + 1))
    else do
      let (ds, after) ← readString opening rest
      pure (c :: ds, after)
  termination_by cs.length
  decreasing_by all_goals simp; try omega

/-- The value of ASCII digits. -/
def digitsNat (ds : List Char) : Nat := ds.foldl (fun n d => 10 * n + (d.toNat - '0'.toNat)) 0

/-- An exponent with at least one digit: its value and what follows. -/
def readExponent : List Char → Option (Int × List Char)
  | e :: cs =>
    if e == 'e' || e == 'E' then
      let (negative, cs) := Decimal.takeSign cs
      let ds := cs.takeWhile Text.isAsciiDigit
      if ds.isEmpty then none
      else
        let n : Int := digitsNat ds
        some (if negative then -n else n, cs.dropWhile Text.isAsciiDigit)
    else none
  | [] => none

/-- A fraction with at least one digit: its digits and what follows. -/
def readFraction : List Char → Option (List Char × List Char)
  | '.' :: cs =>
    let ds := cs.takeWhile Text.isAsciiDigit
    if ds.isEmpty then none else some (ds, cs.dropWhile Text.isAsciiDigit)
  | _ => none

/-- The digits before the point: a single zero, or digits that do not start with zero. -/
def readWhole : List Char → Option (List Char × List Char)
  | [] => none
  | c :: cs =>
    if c = '0' then some (['0'], cs)
    else if Text.isAsciiDigit c then
      some (c :: cs.takeWhile Text.isAsciiDigit, cs.dropWhile Text.isAsciiDigit)
    else none

/-- A number; `none` where none begins. -/
def readNumber (cs : List Char) : Option (Except Stop (Json × List Char)) :=
  let (negative, unsigned) : Bool × List Char :=
    match cs with
    | '-' :: rest => (true, rest)
    | _ => (false, cs)
  (readWhole unsigned).map fun (whole, rest) =>
    let fraction := readFraction rest
    let rest := (fraction.map (·.2)).getD rest
    let exponent := readExponent rest
    let rest := (exponent.map (·.2)).getD rest
    if fraction.isNone && exponent.isNone then
      if Decimal.maxIntegerDigits < whole.length then .error (.tooLong whole.length)
      else
        let n : Int := digitsNat whole
        .ok (.int (if negative then -n else n), rest)
    else
      let digits := (fraction.map (·.1)).getD []
      let x := Decimal.nearest (digitsNat (whole ++ digits))
        ((exponent.map (·.1)).getD 0 - digits.length)
      .ok (.float (if negative then -x else x), rest)

/-- The words of JSON and their values. -/
def literals : List (List Char × Json) := [
  (['n', 'u', 'l', 'l'], .null),
  (['t', 'r', 'u', 'e'], .bool true),
  (['f', 'a', 'l', 's', 'e'], .bool false),
  (['N', 'a', 'N'], .float (0.0 / 0.0)),
  (['I', 'n', 'f', 'i', 'n', 'i', 't', 'y'], .float (1.0 / 0.0)),
  (['-', 'I', 'n', 'f', 'i', 'n', 'i', 't', 'y'], .float (-1.0 / 0.0))]

/-- A word of JSON at the beginning of the characters, and what follows. -/
def readLiteral (cs : List Char) : Option (Json × List Char) :=
  (literals.find? fun (word, _) => word.isPrefixOf cs).map fun (word, v) =>
    (v, cs.drop word.length)

mutual

/-- A value that begins at the first character, and what follows. -/
def readValue (fuel : Nat) (cs : List Char) : Except Stop (Json × List Char) :=
  match fuel with
  | 0 => .error (.fault .noValue cs.length)
  | fuel + 1 =>
    match cs with
    | '"' :: rest => (readString half cs.length rest).map fun (ds, after) =>
      (.str (String.ofList ds), after)
    | '\x7b' :: rest =>
      match skipBlanks rest with
      | '\x7d' :: after => .ok (.obj [], after)
      | rest => (readMembers fuel [] rest).map fun (ms, after) => (.obj ms, after)
    | '[' :: rest =>
      match skipBlanks rest with
      | ']' :: after => .ok (.arr [], after)
      | rest => (readItems fuel rest).map fun (vs, after) => (.arr vs, after)
    | _ =>
      match readLiteral cs with
      | some (v, after) => .ok (v, after)
      | none => (readNumber cs).getD (.error (.fault .noValue cs.length))

/-- The items of an array from the next one on, and what follows the closing bracket. -/
def readItems (fuel : Nat) (cs : List Char) : Except Stop (List Json × List Char) :=
  match fuel with
  | 0 => .error (.fault .noValue cs.length)
  | fuel + 1 => do
    let (v, rest) ← readValue fuel cs
    match skipBlanks rest with
    | ']' :: after => .ok ([v], after)
    | ',' :: rest => do
      let (vs, after) ← readItems fuel (skipBlanks rest)
      .ok (v :: vs, after)
    | rest => .error (.fault .noComma rest.length)

/-- The members of an object from the next one on, added to those before, and what follows the
closing brace. -/
def readMembers (fuel : Nat) (known : List (String × Json)) (cs : List Char) :
    Except Stop (List (String × Json) × List Char) :=
  match fuel with
  | 0 => .error (.fault .noName cs.length)
  | fuel + 1 =>
    match cs with
    | '"' :: rest => do
      let (ds, rest) ← readString half cs.length rest
      match skipBlanks rest with
      | ':' :: rest => do
        let (v, rest) ← readValue fuel (skipBlanks rest)
        let known := put (String.ofList ds) v known
        match skipBlanks rest with
        | '\x7d' :: after => .ok (known, after)
        | ',' :: rest => readMembers fuel known (skipBlanks rest)
        | rest => .error (.fault .noComma rest.length)
      | rest => .error (.fault .noColon rest.length)
    | _ => .error (.fault .noName cs.length)

end

/-- A whole text: one value between blanks. -/
def readAll (cs : List Char) : Except Stop Json :=
  if cs.head? == some '\ufeff' then .error (.fault .byteOrderMark cs.length)
  else do
    let (v, rest) ← readValue half (2 * cs.length + 1) (skipBlanks cs)
    match skipBlanks rest with
    | [] => pure v
    | rest => .error (.fault .extraData rest.length)

end

/-- Why a text is not JSON. -/
inductive ReadError where
  | fault (fault : Fault) (line column position : Nat)
  | tooLong (digits : Nat)
  deriving DecidableEq, Repr

/-- Turns the number of characters left into line, column and position. -/
def Stop.locate (cs : List Char) : Stop → ReadError
  | .fault f left =>
    let before := cs.take (cs.length - left)
    .fault f (before.count '\n' + 1)
      ((before.reverse.takeWhile (· != '\n')).length + 1) before.length
  | .tooLong n => .tooLong n

/-- The value of a JSON text, with given characters for halves of surrogate pairs. -/
def readWith (half : Nat → Char) (s : String) : Except ReadError Json :=
  (readAll half s.toList).mapError (Stop.locate s.toList)

/-- The value of a JSON text. -/
def read (s : String) : Except ReadError Json := readWith (fun _ => '\ufffd') s

/-- The message for a text that is not JSON. -/
def ReadError.message : ReadError → String
  | .fault f line column position =>
    s!"{f.message}: line {line} column {column} (char {position})"
  | .tooLong n => (Decimal.IntegerFault.tooLong n).message

end Cadence.Json
