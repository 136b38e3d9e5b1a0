/-
The tokens of YAML.

Indentation and the places where a key may stand are settled here: a key is known as one only when
its colon comes, and its token is then put before those that followed it.  A text that breaks off
with a fault still has the tokens before the first place where a key may stand, since nothing can
change them any more.

* `Token` — what the structure of a document is made of;
* `tokens` — the tokens of a text, and the fault at which they end, if any.
-/
import Cadence.Text.Encoding
import Cadence.Yaml.Scalar

namespace Cadence.Yaml

/-- An instruction before a document. -/
inductive Directive where
  | version (major : Nat)
  | tag (handle start : String)
  | other
  deriving DecidableEq, Repr

/-- A token. -/
inductive Token where
  | streamEnd
  | directive (directive : Directive)
  | documentStart
  | documentEnd
  | sequenceStart
  | mappingStart
  | blockEnd
  | openBracket
  | closeBracket
  | openBrace
  | closeBrace
  | entry
  | comma
  | key
  | value
  | reference (name : String)
  | anchor (name : String)
  | tag (handle : Option String) (suffix : String)
  | scalar (text : String) (plain : Bool)
  deriving DecidableEq, Repr

/-- A place where a key may have begun. -/
structure PossibleKey where
  level : Nat
  token : Nat
  required : Bool
  index : Nat
  line : Nat
  column : Nat
  deriving DecidableEq, Repr

/-- The state between two tokens. -/
structure Lexer where
  cursor : Cursor
  tokens : List Token
  /-- The indentation of the innermost block, and of those around it. -/
  indent : Int
  indents : List Int
  /-- How many brackets and braces are open. -/
  level : Nat
  keys : List PossibleKey
  /-- Whether a key may begin at the place. -/
  keyAllowed : Bool
  done : Bool

/-- The result of reading a token. -/
abbrev Lexed := Except Fault Lexer

namespace Lexer

/-- The state at the beginning of a text. -/
def start (cs : List Char) : Lexer := ⟨.start cs, [], -1, [], 0, [], true, false⟩

/-- Adds a token. -/
def push (s : Lexer) (t : Token) : Lexer := { s with tokens := s.tokens ++ [t] }

/-- Moves to a place. -/
def goTo (s : Lexer) (c : Cursor) : Lexer := { s with cursor := c }

/-- The column of the place. -/
def column (s : Lexer) : Int := s.cursor.column

/-- Skips blanks, comments and ends of lines. After the end of a line a key may begin. -/
def skipGaps : Nat → Lexer → Lexer
  | 0, s => s
  | fuel + 1, s =>
    let c := s.cursor.skipWhile (· == ' ')
    let c := if c.head == '#' then c.skipWhile (!isBreak ·) else c
    match c.lineBreak? with
    | none => s.goTo c
    | some (_, c) => skipGaps fuel { s.goTo c with keyAllowed := s.keyAllowed || s.level == 0 }

/-- Skips what stands before the next token; at the beginning of the text also its mark. -/
def skipToToken (s : Lexer) : Lexer :=
  let s := if s.cursor.index == 0 && s.cursor.head == '\ufeff' then s.goTo s.cursor.next else s
  skipGaps (s.cursor.rest.length + 1) s

/-- Whether a key that began at a place cannot go on any more: a key is short and ends on
its line. -/
def isStale (c : Cursor) (k : PossibleKey) : Bool := k.line != c.line || 1024 < c.index - k.index

/-- Forgets the keys that cannot go on; one that is required must not be among them. -/
def dropStale (s : Lexer) : Lexed :=
  if s.keys.any fun k => isStale s.cursor k && k.required then .error .token
  else .ok { s with keys := s.keys.filter (!isStale s.cursor ·) }

/-- The possible key of the innermost brackets. -/
def key? (s : Lexer) : Option PossibleKey := s.keys.find? (·.level == s.level)

/-- Forgets the possible key of the innermost brackets, which must not be required. -/
def dropKey (s : Lexer) : Lexed :=
  if s.key?.any (·.required) then .error .token
  else .ok { s with keys := s.keys.filter (·.level != s.level) }

/-- Notes that a key may begin at the place. -/
def noteKey (s : Lexer) : Lexed :=
  if s.keyAllowed then do
    let required := s.level == 0 && s.indent == s.column
    let s ← s.dropKey
    let c := s.cursor
    pure { s with keys := ⟨s.level, s.tokens.length, required, c.index, c.line, c.column⟩ ::
      s.keys }
  else .ok s

/-- Ends the blocks that are indented more than a column. -/
def endBlocks (column : Int) (s : Lexer) : Lexer :=
  if s.level == 0 then go s.indent s.indents s else s
where
  /-- Ends one block after the other. -/
  go (indent : Int) (indents : List Int) (s : Lexer) : Lexer :=
    if column < indent then
      match indents with
      | [] => { s.push .blockEnd with indent := -1, indents := [] }
      | outer :: rest => go outer rest { s.push .blockEnd with indent := outer, indents := rest }
    else s
  termination_by structural indents

/-- Begins a block at a column unless one is there. -/
def beginBlock (s : Lexer) (column : Int) : Option Lexer :=
  if s.indent < column
    then some { s with indent := column, indents := s.indent :: s.indents } else none

/-- Begins a block with a token at the place unless one is there. -/
def openBlock (s : Lexer) (t : Token) : Lexer :=
  match s.beginBlock s.column with
  | some s => s.push t
  | none => s

/-- Takes one character as a token. -/
def single (s : Lexer) (t : Token) : Lexer := (s.goTo s.cursor.next).push t

/-- The end of the text. -/
def streamEnd (s : Lexer) : Lexed := do
  let s ← (s.endBlocks (-1)).dropKey
  pure { s.push .streamEnd with keyAllowed := false, keys := [], done := true }

/-- Whether a character may stand in a name. -/
def isNameChar (c : Char) : Bool :=
  Text.isAsciiDigit c || ('a' ≤ c && c ≤ 'z') || ('A' ≤ c && c ≤ 'Z') || c == '-' || c == '_'

/-- A number of a version. -/
def versionNumber (c : Cursor) : Except Fault (Nat × Cursor) :=
  match c.take Text.isAsciiDigit with
  | ([], _) => .error .token
  | (ds, c) => .ok (ds.foldl (fun v d => 10 * v + (d.toNat - '0'.toNat)) 0, c)

/-- A version. -/
def version (c : Cursor) : Except Fault (Directive × Cursor) := do
  let (major, c) ← versionNumber (c.skipWhile (· == ' '))
  if c.head != '.' then throw .token
  let (_, c) ← versionNumber c.next
  if isGap c.head then pure (.version major, c) else throw .token

/-- The handle of a tag. -/
def tagHandle (c : Cursor) : Except Fault (String × Cursor) :=
  if c.head != '!' then .error .token
  else if c.peek 1 == ' ' then .ok ("!", c.next)
  else
    let (name, after) := c.next.take isNameChar
    if after.head == '!' then .ok (String.ofList ('!' :: name ++ ['!']), after.next)
    else .error .token

/-- Whether a character may stand in the address of a tag. -/
def isTagChar (c : Char) : Bool := isNameChar c || ";/?:@&=+$,.!~*'()[]".toList.contains c

/-- Bytes written with percent signs. -/
def percentBytes : Nat → Cursor → Except Fault (List UInt8 × Cursor)
  | 0, c => .ok ([], c)
  | fuel + 1, c =>
    if c.head == '%' then
      match Text.hexNumber? 2 c.next.rest with
      | none => .error .token
      | some b => (percentBytes fuel (c.skip 3)).map fun (bs, c) => (b.toUInt8 :: bs, c)
    else .ok ([], c)

/-- The characters of the address of a tag. -/
def tagChars : Nat → Cursor → Except Fault (List Char × Cursor)
  | 0, c => .ok ([], c)
  | fuel + 1, c =>
    if c.head == '%' then do
      let (bytes, c) ← percentBytes fuel c
      match Text.Encoding.utf8.decode? bytes with
      | none => throw .token
      | some s =>
        let (rest, c) ← tagChars fuel c
        pure (s.toList ++ rest, c)
    else if isTagChar c.head then
      (tagChars fuel c.next).map fun (rest, c') => (c.head :: rest, c')
    else .ok ([], c)

/-- The address of a tag. -/
def tagAddress (c : Cursor) : Except Fault (String × Cursor) := do
  match ← tagChars (c.rest.length + 1) c with
  | ([], _) => throw .token
  | (cs, c) => pure (String.ofList cs, c)

/-- A definition of a handle. -/
def tagDefinition (c : Cursor) : Except Fault (Directive × Cursor) := do
  let (handle, c) ← tagHandle (c.skipWhile (· == ' '))
  if c.head != ' ' then throw .token
  let (start, c) ← tagAddress (c.skipWhile (· == ' '))
  if isGap c.head then pure (.tag handle start, c) else throw .token

/-- An instruction. -/
def directive (s : Lexer) : Lexed := do
  let s ← (s.endBlocks (-1)).dropKey
  let (name, c) := s.cursor.next.take isNameChar
  if name.isEmpty || !isGap c.head then throw .token
  let (d, c) ← match String.ofList name with
    | "YAML" => version c
    | "TAG" => tagDefinition c
    | _ => pure (.other, c.skipWhile (!isBreak ·))
  pure { (s.goTo (← c.endLine)).push (.directive d) with keyAllowed := false }

/-- The beginning or the end of a document. -/
def separator (s : Lexer) (t : Token) : Lexed := do
  let s ← (s.endBlocks (-1)).dropKey
  pure { (s.goTo (s.cursor.skip 3)).push t with keyAllowed := false }

/-- An opening bracket or brace. -/
def opening (s : Lexer) (t : Token) : Lexed := do
  let s ← s.noteKey
  pure { s.single t with level := s.level + 1, keyAllowed := true }

/-- A closing bracket or brace. -/
def closing (s : Lexer) (t : Token) : Lexed := do
  let s ← s.dropKey
  pure { s.single t with level := s.level - 1, keyAllowed := false }

/-- A comma between brackets. -/
def comma (s : Lexer) : Lexed := do
  let s ← s.dropKey
  pure { s.single .comma with keyAllowed := true }

/-- A dash before an item. -/
def entry (s : Lexer) : Lexed := do
  if s.level == 0 && !s.keyAllowed then throw .token
  let s := if s.level == 0 then s.openBlock .sequenceStart else s
  let s ← s.dropKey
  pure { s.single .entry with keyAllowed := true }

/-- A question mark before a key. -/
def explicitKey (s : Lexer) : Lexed := do
  if s.level == 0 && !s.keyAllowed then throw .token
  let s := if s.level == 0 then s.openBlock .mappingStart else s
  let s ← s.dropKey
  pure { s.single .key with keyAllowed := s.level == 0 }

/-- A colon before a value. The key before it is now known as one. -/
def colon (s : Lexer) : Lexed :=
  match s.key? with
  | some k =>
    let s := { s with
      keys := s.keys.filter (·.level != s.level), tokens := s.tokens.insertIdx k.token .key }
    let s := if s.level == 0 then
        match s.beginBlock k.column with
        | some s => { s with tokens := s.tokens.insertIdx k.token .mappingStart }
        | none => s
      else s
    .ok { s.single .value with keyAllowed := false }
  | none => do
    if s.level == 0 && !s.keyAllowed then throw .token
    let s := if s.level == 0 then s.openBlock .mappingStart else s
    pure { s.single .value with keyAllowed := s.level == 0 }

/-- A name after an asterisk or ampersand. -/
def name (s : Lexer) (make : String → Token) : Lexed := do
  let s ← s.noteKey
  let (name, c) := s.cursor.next.take isNameChar
  if name.isEmpty then throw .token
  if !(isWideGap c.head || "?:,]\x7d%@\x60".toList.contains c.head) then throw .token
  pure { (s.goTo c).push (make (String.ofList name)) with keyAllowed := false }

/-- Whether a tag that begins after an exclamation mark has a handle with a second one. -/
def hasHandle (cs : List Char) : Bool := (cs.takeWhile (!isGap ·)).contains '!'

/-- A tag: between angle brackets, a lone exclamation mark, or with a handle. -/
def tagToken (c : Cursor) : Except Fault (Token × Cursor) :=
  let d := c.peek 1
  if d == '<' then do
    let (address, c) ← tagAddress (c.skip 2)
    if c.head == '>' then pure (.tag none address, c.next) else throw .token
  else if isWideGap d then .ok (.tag none "!", c.next)
  else do
    let (handle, c) ← if hasHandle c.next.rest then tagHandle c else pure ("!", c.next)
    let (suffix, c) ← tagAddress c
    pure (.tag (some handle) suffix, c)

/-- A tag. -/
def tag (s : Lexer) : Lexed := do
  let s ← s.noteKey
  let (t, c) ← tagToken s.cursor
  if !isGap c.head then throw .token
  pure { (s.goTo c).push t with keyAllowed := false }

/-- A block scalar. -/
def blockScalar (s : Lexer) (folded : Bool) : Lexed := do
  let s ← s.dropKey
  let (text, c) ← block folded s.indent s.cursor
  pure { (s.goTo c).push (.scalar (String.ofList text) false) with keyAllowed := true }

/-- A quoted scalar. -/
def quotedScalar (half : Nat → Except Fault Char) (s : Lexer) (double : Bool) : Lexed := do
  let s ← s.noteKey
  let (text, c) ← quoted half double s.cursor
  pure { (s.goTo c).push (.scalar (String.ofList text) false) with keyAllowed := false }

/-- A plain scalar. -/
def plainScalar (s : Lexer) : Lexed := do
  let s ← s.noteKey
  let (text, c, keyAllowed) := plain (s.level != 0) (s.indent + 1) s.cursor
  pure { (s.goTo c).push (.scalar (String.ofList text) true) with keyAllowed := keyAllowed }

/-- Whether a plain scalar may begin at the place. -/
def plainBegins (s : Lexer) : Bool :=
  let d := s.cursor.head
  !(isWideGap d || "-?:,[]\x7b\x7d#&*!|>'\"%@\x60".toList.contains d) ||
    (!isWideGap (s.cursor.peek 1) && (d == '-' || (s.level == 0 && (d == '?' || d == ':'))))

/-- Reads the token at the place. -/
def token (half : Nat → Except Fault Char) (s : Lexer) : Lexed :=
  let c := s.cursor
  let d := c.head
  let block := s.level == 0
  let gapFollows := isWideGap (c.peek 1)
  if c.rest.isEmpty then s.streamEnd
  else if d == '%' && c.column == 0 then s.directive
  else if d == '-' && c.column == 0 && c.atSeparator then s.separator .documentStart
  else if d == '.' && c.column == 0 && c.atSeparator then s.separator .documentEnd
  else if d == '[' then s.opening .openBracket
  else if d == '\x7b' then s.opening .openBrace
  else if d == ']' then s.closing .closeBracket
  else if d == '\x7d' then s.closing .closeBrace
  else if d == ',' then s.comma
  else if d == '-' && gapFollows then s.entry
  else if d == '?' && (!block || gapFollows) then s.explicitKey
  else if d == ':' && (!block || gapFollows) then s.colon
  else if d == '*' then s.name .reference
  else if d == '&' then s.name .anchor
  else if d == '!' then s.tag
  else if d == '|' && block then s.blockScalar false
  else if d == '>' && block then s.blockScalar true
  else if d == '\'' then s.quotedScalar half false
  else if d == '"' then s.quotedScalar half true
  else if s.plainBegins then s.plainScalar
  else .error .token

/-- Skips to the next token and reads it. -/
def next (half : Nat → Except Fault Char) (s : Lexer) : Lexed := do
  let s ← s.skipToToken.dropStale
  (s.endBlocks s.column).token half

/-- How many tokens cannot change any more: those before the first possible key. -/
def settled (s : Lexer) : Nat := s.keys.foldl (fun n k => min n k.token) s.tokens.length

/-- Reads all tokens. A token is given out once it is settled, so that a fault which shows after one
more token was read holds back all but the `sure` first that were settled before. -/
def all (half : Nat → Except Fault Char) : Nat → Nat → Lexer → List Token × Option Fault
  | 0, _, s => (s.tokens, none)
  | fuel + 1, sure, s =>
    if s.done then (s.tokens, none)
    else
      match s.dropStale with
      | .error e => (s.tokens.take sure, some e)
      | .ok s =>
        match s.next half with
        | .error e => (s.tokens.take s.settled, some e)
        | .ok t => all half fuel s.settled t

end Lexer

/-- The tokens of a text, and the fault at which they end, if any. -/
def tokens (half : Nat → Except Fault Char) (cs : List Char) : List Token × Option Fault :=
  Lexer.all half (cs.length + 2) 0 (.start cs)

end Cadence.Yaml
