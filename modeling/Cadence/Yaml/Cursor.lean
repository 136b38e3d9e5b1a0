/-
A place in a YAML text.

* `Cursor` — the characters from a place on, with its line and column;
* `Fault` — what can be wrong with a YAML text.
-/
namespace Cadence.Yaml

/-- What can be wrong with a YAML text. -/
inductive Fault where
  /-- A character that may not stand in a text. -/
  | character
  /-- Characters that make no token. -/
  | token
  /-- Tokens that make no document. -/
  | grammar
  /-- A reference without its anchor, an anchor that occurs twice, or a second document. -/
  | reference
  /-- A node whose tag does not go with its content. -/
  | content
  /-- A scalar that looks like a value that does not exist. -/
  | value (reason : String)
  /-- A scalar that holds half of a surrogate pair, which no text holds here. -/
  | half
  /-- A scalar that is no word for a truth value. -/
  | word
  /-- A number without any character. -/
  | empty
  /-- A scalar that is no point in time. -/
  | time
  deriving DecidableEq, Repr

/-- The characters from a place on, and where that place is. -/
structure Cursor where
  rest : List Char
  index : Nat
  line : Nat
  column : Nat
  deriving Inhabited, Repr

/-- Whether a character ends a line. -/
def isBreak (c : Char) : Bool :=
  c == '\n' || c == '\r' || c == '\x85' || c == '\u2028' || c == '\u2029'

/-- Whether a character ends a line or stands for the end of the text. -/
def isLineEnd (c : Char) : Bool := c == '\x00' || isBreak c

/-- Whether a character is a space, ends a line or stands for the end of the text. -/
def isGap (c : Char) : Bool := c == ' ' || isLineEnd c

/-- Whether a character is a space or tab, ends a line or stands for the end of the text. -/
def isWideGap (c : Char) : Bool := c == '\t' || isGap c

namespace Cursor

/-- The beginning of a text. -/
def start (cs : List Char) : Cursor := ⟨cs, 0, 0, 0⟩

/-- The character some places ahead; the null character stands for the end. -/
def peek (c : Cursor) (n : Nat) : Char := c.rest.getD n '\x00'

/-- The character at the place. -/
def head (c : Cursor) : Char := c.peek 0

/-- The next place. -/
def next (c : Cursor) : Cursor :=
  match c.rest with
  | [] => c
  | d :: rest =>
    let endsLine := d == '\n' || d == '\x85' || d == '\u2028' || d == '\u2029' ||
      (d == '\r' && rest.head? != some '\n')
    if endsLine then ⟨rest, c.index + 1, c.line + 1, 0⟩
    else ⟨rest, c.index + 1, c.line, if d == '\ufeff' then c.column else c.column + 1⟩

/-- The place some characters ahead. -/
def skip (c : Cursor) : Nat → Cursor
  | 0 => c
  | n + 1 => c.next.skip n

/-- The characters of a class from here on, and the place after them. -/
def take (c : Cursor) (p : Char → Bool) : List Char × Cursor :=
  let cs := c.rest.takeWhile p
  (cs, c.skip cs.length)

/-- The place after the characters of a class. -/
def skipWhile (c : Cursor) (p : Char → Bool) : Cursor := (c.take p).2

/-- The end of line at the place, if there is one: the character that it counts as, and the place
after it. -/
def lineBreak? (c : Cursor) : Option (Char × Cursor) :=
  match c.rest with
  | '\r' :: '\n' :: _ => some ('\n', c.skip 2)
  | d :: _ =>
    if d == '\u2028' || d == '\u2029' then some (d, c.next)
    else if isBreak d then some ('\n', c.next)
    else none
  | [] => none

/-- Whether a line of three equal characters, which separates documents, begins at the place. -/
def atSeparator (c : Cursor) : Bool :=
  (['-', '-', '-'].isPrefixOf c.rest || ['.', '.', '.'].isPrefixOf c.rest) && isWideGap (c.peek 3)

/-- The place after blanks, a comment and the end of the line; anything else there is a fault. -/
def endLine (c : Cursor) : Except Fault Cursor :=
  let c := c.skipWhile (· == ' ')
  let c := if c.head == '#' then c.skipWhile (!isBreak ·) else c
  if isLineEnd c.head then .ok ((c.lineBreak?.map (·.2)).getD c) else .error .token

end Cursor

end Cadence.Yaml
