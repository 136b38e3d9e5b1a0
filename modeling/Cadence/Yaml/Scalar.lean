/-
The scalars of YAML: plain, quoted and block.

A line break inside a plain or quoted scalar counts as a space, and further breaks after it count as
themselves.  Block scalars keep their breaks or fold them in the same way.

* `quoted`, `plain`, `block` — the text of a scalar and the place after it.
-/
import Cadence.Yaml.Cursor
import Cadence.Text.Encoding
import Cadence.Text.Digit

namespace Cadence.Yaml

/-- What a run of breaks counts as: the first one as a space if more than a plain break follows. -/
def foldBreak (first : Char) (more : List Char) : List Char :=
  if first != '\n' then first :: more else if more.isEmpty then [' '] else more

/-- The breaks from a place on, with the blanks around them. A separator of documents may not stand
there. -/
def quotedBreaks : Nat → Cursor → Except Fault (List Char × Cursor)
  | 0, c => .ok ([], c)
  | fuel + 1, c =>
    if c.atSeparator then .error .token
    else
      let c := c.skipWhile fun d => d == ' ' || d == '\t'
      match c.lineBreak? with
      | some (b, c) => (quotedBreaks fuel c).map fun (bs, c) => (b :: bs, c)
      | none => .ok ([], c)

/-- The characters that stand after a backslash for a single character. -/
def escapes : List (Char × Char) := [
  ('0', '\x00'), ('a', '\x07'), ('b', '\x08'), ('t', '\t'), ('\t', '\t'), ('n', '\n'),
  ('v', '\x0b'),
  ('f', '\x0c'), ('r', '\r'), ('e', '\x1b'), (' ', ' '), ('"', '"'), ('\\', '\\'), ('/', '/'),
  ('N', '\x85'), ('_', '\xa0'), ('L', '\u2028'), ('P', '\u2029')]

/-- How many hexadecimal digits follow a letter after a backslash. -/
def escapeDigits : List (Char × Nat) := [('x', 2), ('u', 4), ('U', 8)]

/-- What a backslash stands for, from the place after it; `half` says what stands for half of a
surrogate pair. -/
def escape (half : Nat → Except Fault Char) (fuel : Nat) (c : Cursor) :
    Except Fault (List Char × Cursor) :=
  match escapes.lookup c.head, escapeDigits.lookup c.head with
  | some d, _ => .ok ([d], c.next)
  | none, some n =>
    let c := c.next
    match Text.hexNumber? n c.rest with
    | none => .error .token
    | some v =>
      if 0x110000 ≤ v then .error (.value "chr() arg not in range(0x110000)")
      else if Text.isHalf v then (half v).map fun d => ([d], c.skip n)
      else .ok ([Char.ofNat v], c.skip n)
  | none, none =>
    match c.lineBreak? with
    | some (_, c) => quotedBreaks fuel c
    | none => .error .token

/-- The rest of a quoted scalar. -/
def quotedRest (half : Nat → Except Fault Char) (double : Bool) :
    Nat → Cursor → Except Fault (List Char × Cursor)
  | 0, _ => .error .token
  | fuel + 1, c =>
    let add (cs : List Char) (c : Cursor) : Except Fault (List Char × Cursor) :=
      (quotedRest half double fuel c).map fun (rest, c) => (cs ++ rest, c)
    let d := c.head
    if c.rest.isEmpty then .error .token
    else if !double && d == '\'' && c.peek 1 == '\'' then add ['\''] (c.skip 2)
    else if d == (if double then '"' else '\'') then .ok ([], c.next)
    else if double && d == '\\' then
      match escape half fuel c.next with
      | .ok (cs, c) => add cs c
      | .error e => .error e
    else if d == ' ' || d == '\t' || isBreak d then
      let (blanks, c) := c.take fun d => d == ' ' || d == '\t'
      match c.lineBreak? with
      | none => add blanks c
      | some (b, c) =>
        match quotedBreaks fuel c with
        | .ok (bs, c) => add (foldBreak b bs) c
        | .error e => .error e
    else add [d] c.next

/-- A quoted scalar that begins at the place. -/
def quoted (half : Nat → Except Fault Char) (double : Bool) (c : Cursor) :
    Except Fault (List Char × Cursor) :=
  quotedRest half double (c.rest.length + 1) c.next

/-- The breaks and indentation after the first break of a plain scalar; `none` before a separator of
documents. -/
def plainBreaks : Nat → Cursor → Option (List Char) × Cursor
  | 0, c => (some [], c)
  | fuel + 1, c =>
    let c := c.skipWhile (· == ' ')
    match c.lineBreak? with
    | none => (some [], c)
    | some (b, c) =>
      if c.atSeparator then (none, c)
      else
        let (bs, c) := plainBreaks fuel c
        (bs.map (b :: ·), c)

/-- What stands between two parts of a plain scalar: its characters, none if the scalar ends there;
the place after it; and whether a line ended. -/
def plainSpaces (c : Cursor) : List Char × Cursor × Bool :=
  let (blanks, c) := c.take (· == ' ')
  match c.lineBreak? with
  | none => (blanks, c, false)
  | some (b, c) =>
    if c.atSeparator then ([], c, true)
    else
      match plainBreaks (c.rest.length + 1) c with
      | (none, c) => ([], c, true)
      | (some bs, c) => (foldBreak b bs, c, true)

/-- Whether a plain scalar cannot go on with a character that another one follows. -/
def endsPlain (flow : Bool) (d after : Char) : Bool :=
  isWideGap d ||
    (d == ':' && (isWideGap after || (flow && [',', '[', ']', '\x7b', '\x7d'].contains after))) ||
    (flow && [',', '?', '[', ']', '\x7b', '\x7d'].contains d)

/-- The characters of a plain scalar up to the next gap. -/
def plainPart (flow : Bool) : List Char → List Char
  | [] => []
  | d :: rest => if endsPlain flow d (rest.headD '\x00') then [] else d :: plainPart flow rest

/-- The rest of a plain scalar after `spaces`; outside brackets its lines are indented by
`indent` at least. Also whether a key may follow. -/
def plainRest (flow : Bool) (indent : Int) (spaces : List Char) (keyMayFollow : Bool) :
    Nat → Cursor → List Char × Cursor × Bool
  | 0, c => ([], c, keyMayFollow)
  | fuel + 1, c =>
    if c.head == '#' then ([], c, keyMayFollow)
    else
      match plainPart flow c.rest with
      | [] => ([], c, keyMayFollow)
      | part =>
        let (spaces', c, lineEnded) := plainSpaces (c.skip part.length)
        if spaces'.isEmpty || c.head == '#' || (!flow && decide ((c.column : Int) < indent)) then
          (spaces ++ part, c, lineEnded)
        else
          let (rest, c, may) := plainRest flow indent spaces' lineEnded fuel c
          (spaces ++ part ++ rest, c, may)

/-- A plain scalar that begins at the place: its characters, the place after it, and whether
a key may follow, which is so after the end of a line. -/
def plain (flow : Bool) (indent : Int) (c : Cursor) : List Char × Cursor × Bool :=
  plainRest flow indent [] false (c.rest.length + 1) c

/-- What becomes of the breaks at the end of a block scalar. -/
inductive Chomp where
  | strip | clip | keep
  deriving DecidableEq, Repr

/-- A sign for the breaks at the end. -/
def chomp? (d : Char) : Option Chomp :=
  if d == '+' then some .keep else if d == '-' then some .strip else none

/-- A digit for the indentation; zero is refused. -/
def increment? (c : Cursor) : Except Fault (Option Nat × Cursor) :=
  if Text.isAsciiDigit c.head then
    if c.head == '0' then .error .token else .ok (some (c.head.toNat - '0'.toNat), c.next)
  else .ok (none, c)

/-- The header of a block scalar, in either order, to the end of its line. -/
def blockHeader (c : Cursor) : Except Fault (Chomp × Option Nat × Cursor) := do
  let (chomp, increment, c) ←
    match chomp? c.head with
    | some chomp => do
      let (n, c) ← increment? c.next
      pure (chomp, n, c)
    | none => do
      let (n, c) ← increment? c
      match n, chomp? c.head with
      | some n, some chomp => pure (chomp, some n, c.next)
      | n, _ => pure (.clip, n, c)
  if !isGap c.head then throw .token
  return (chomp, increment, ← c.endLine)

/-- The breaks before the first line of a block scalar, and the widest indentation among them. -/
def leadingBreaks (widest : Nat) : Nat → Cursor → List Char × Nat × Cursor
  | 0, c => ([], widest, c)
  | fuel + 1, c =>
    let c := c.skipWhile (· == ' ')
    let widest := max widest c.column
    match c.lineBreak? with
    | none => ([], widest, c)
    | some (b, c) =>
      let (bs, widest, c) := leadingBreaks widest fuel c
      (b :: bs, widest, c)

/-- The place after at most the indentation. -/
def skipIndent (indent : Nat) (c : Cursor) : Cursor :=
  c.skip (min (indent - c.column) (c.rest.takeWhile (· == ' ')).length)

/-- The breaks from a place on, with the indentation after each. -/
def blockBreaks (indent : Nat) : Nat → Cursor → List Char × Cursor
  | 0, c => ([], c)
  | fuel + 1, c =>
    let c := skipIndent indent c
    match c.lineBreak? with
    | none => ([], c)
    | some (b, c) =>
      let (bs, c) := blockBreaks indent fuel c
      (b :: bs, c)

/-- Whether a character indents a line further. -/
def isIndent (d : Char) : Bool := d == ' ' || d == '\t'

/-- The lines of a block scalar from a place on, after `breaks`: the characters, the break
of the last line and the breaks after it, and the place after them. -/
def blockLines (folded : Bool) (indent : Nat) (breaks : List Char) :
    Nat → Cursor → List Char × List Char × List Char × Cursor
  | 0, c => ([], [], breaks, c)
  | fuel + 1, c =>
    let begins (c : Cursor) : Bool := c.column == indent && !c.rest.isEmpty
    if !begins c then ([], [], breaks, c)
    else
      let flush := !isIndent c.head
      let (line, c) := c.take (!isBreak ·)
      let (last, c) := match c.lineBreak? with
        | some (b, c) => ([b], c)
        | none => ([], c)
      let (after, c) := blockBreaks indent fuel c
      if begins c then
        let joint :=
          if folded && last == ['\n'] && flush && !isIndent c.head then
            if after.isEmpty then [' '] else []
          else last
        let (rest, last, tail, c) := blockLines folded indent after fuel c
        (breaks ++ line ++ joint ++ rest, last, tail, c)
      else (breaks ++ line, last, after, c)

/-- A block scalar whose sign stands at the place. -/
def block (folded : Bool) (indent : Int) (c : Cursor) : Except Fault (List Char × Cursor) := do
  let (chomp, increment, c) ← blockHeader c.next
  let least := (max (indent + 1) 1).toNat
  let fuel := c.rest.length + 1
  let (breaks, indent, c) := match increment with
    | none =>
      let (breaks, widest, c) := leadingBreaks 0 fuel c
      (breaks, max least widest, c)
    | some n =>
      let (breaks, c) := blockBreaks (least + n - 1) fuel c
      (breaks, least + n - 1, c)
  let (text, last, tail, c) := blockLines folded indent breaks fuel c
  return (text ++ (if chomp = .strip then [] else last) ++ (if chomp = .keep then tail else []), c)

end Cadence.Yaml
