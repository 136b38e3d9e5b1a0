/-
The nodes of a YAML document.

Tokens are put together to nodes: scalars, sequences and mappings, each with its tag.  A reference
stands for the node with its anchor.  A text holds one document at most.

* `Node` — a node;
* `nodeOf` — the node of the document in a text, if there is a document.
-/
import Cadence.Yaml.Tag
import Cadence.Yaml.Token

namespace Cadence.Yaml

/-- A node. -/
inductive Node where
  | scalar (tag text : String)
  | seq (tag : String) (items : List Node)
  | map (tag : String) (entries : List (Node × Node))
  deriving Inhabited, Repr

/-- The tag of a node. -/
def Node.tag : Node → String
  | .scalar tag _ | .seq tag _ | .map tag _ => tag

/-- The node that stands where nothing is written. -/
def Node.empty : Node := .scalar (standardTag "null") ""

/-- What is left of a text, and what is known from before. An anchor whose node is not finished has
none yet. -/
structure Parser where
  tokens : List Token
  fault : Option Fault
  handles : List (String × String)
  anchors : List (String × Option Node)

/-- A step that takes tokens. -/
abbrev Parse := StateT Parser (Except Fault)

namespace Parse

/-- The next token. -/
def peek : Parse Token := do
  match (← get).tokens with
  | t :: _ => pure t
  | [] => throw ((← get).fault.getD .grammar)

/-- Takes the next token. -/
def drop : Parse Unit := modify fun s => { s with tokens := s.tokens.drop 1 }

/-- The handles that every document has. -/
def defaultHandles : List (String × String) := [("!", "!"), ("!!", tagStart)]

/-- A tag that is written out. -/
def fullTag (handle : Option String) (suffix : String) : Parse String := do
  match handle with
  | none => pure suffix
  | some h =>
    match (← get).handles.lookup h with
    | some start => pure (start ++ suffix)
    | none => throw .grammar

/-- The anchor and the tag before a node, in either order. -/
def properties : Parse (Option String × Option (Option String × String)) := do
  match ← peek with
  | .anchor a =>
    drop
    match ← peek with
    | .tag h s => drop; pure (some a, some (h, s))
    | _ => pure (some a, none)
  | .tag h s =>
    drop
    match ← peek with
    | .anchor a => drop; pure (some a, some (h, s))
    | _ => pure (none, some (h, s))
  | _ => pure (none, none)

/-- Notes an anchor, which must be new, before its node. -/
def openAnchor (anchor : Option String) : Parse Unit := do
  match anchor with
  | none => pure ()
  | some a =>
    if ((← get).anchors.lookup a).isSome then throw .reference
    modify fun s => { s with anchors := (a, none) :: s.anchors }

/-- Notes the node of an anchor. -/
def closeAnchor (anchor : Option String) (n : Node) : Parse Node := do
  match anchor with
  | none => pure n
  | some a =>
    modify fun s => { s with anchors := (a, some n) :: s.anchors }
    pure n

/-- Whether a tag leaves the choice to the content. -/
def isOpen (tag : Option String) : Bool := tag.all (· == "!")

/-- The tag of a scalar. -/
def scalarTag (tag : Option String) (text : String) (plain : Bool) : String :=
  match tag with
  | none => if plain then plainTag text else standardTag "str"
  | some t => if t == "!" then plainTag text else t

/-- The tag of a collection. -/
def collectionTag (tag : Option String) (name : String) : String :=
  if isOpen tag then standardTag name else tag.getD ""

/-- Whether nothing is written between the mark of a key or value in a block and the next token. -/
def endsPair : Token → Bool
  | .key | .value | .blockEnd => true
  | _ => false

/-- Whether nothing is written between the mark of a key or value in brackets and the next token. -/
def endsFlow (close : Token) (t : Token) : Bool := t == .comma || t == close

mutual

/-- A node. Blocks are allowed where `block` is set, and sequences without indentation of their own
where `bare` is set. -/
def node (fuel : Nat) (block bare : Bool) : Parse Node :=
  match fuel with
  | 0 => throw .grammar
  | fuel + 1 => do
    match ← peek with
    | .reference name =>
      drop
      match (← get).anchors.lookup name with
      | none => throw .reference
      | some n => pure (n.getD (.seq (standardTag "seq") []))
    | _ =>
      let (anchor, tag) ← properties
      let tag ← match tag with
        | none => pure none
        | some (h, s) => some <$> fullTag h s
      match ← peek with
      | .scalar text plain =>
        drop
        openAnchor anchor
        closeAnchor anchor (.scalar (scalarTag tag text plain) text)
      | .entry =>
        if bare then
          openAnchor anchor
          closeAnchor anchor (.seq (collectionTag tag "seq") (← bareItems fuel))
        else unwritten anchor tag
      | .openBracket =>
        openAnchor anchor
        drop
        closeAnchor anchor (.seq (collectionTag tag "seq") (← flowItems fuel true))
      | .openBrace =>
        openAnchor anchor
        drop
        closeAnchor anchor (.map (collectionTag tag "map") (← flowPairs fuel true))
      | .sequenceStart =>
        if block then
          openAnchor anchor
          drop
          closeAnchor anchor (.seq (collectionTag tag "seq") (← blockItems fuel))
        else unwritten anchor tag
      | .mappingStart =>
        if block then
          openAnchor anchor
          drop
          closeAnchor anchor (.map (collectionTag tag "map") (← blockPairs fuel))
        else unwritten anchor tag
      | _ => unwritten anchor tag

/-- A node of which only anchor or tag are written. -/
def unwritten (anchor : Option String) (tag : Option String) : Parse Node := do
  if anchor.isNone && tag.isNone then throw .grammar
  openAnchor anchor
  closeAnchor anchor (.scalar (scalarTag tag "" true) "")

/-- The items of a block sequence. -/
def blockItems (fuel : Nat) : Parse (List Node) :=
  match fuel with
  | 0 => throw .grammar
  | fuel + 1 => do
    match ← peek with
    | .entry =>
      drop
      let item ← match ← peek with
        | .entry | .blockEnd => pure .empty
        | _ => node fuel true false
      pure (item :: (← blockItems fuel))
    | .blockEnd =>
      drop
      pure []
    | _ => throw .grammar

/-- The items of a sequence without indentation of its own. -/
def bareItems (fuel : Nat) : Parse (List Node) :=
  match fuel with
  | 0 => throw .grammar
  | fuel + 1 => do
    match ← peek with
    | .entry =>
      drop
      let item ← match ← peek with
        | .entry | .key | .value | .blockEnd => pure .empty
        | _ => node fuel true false
      pure (item :: (← bareItems fuel))
    | _ => pure []

/-- A key or value in a block, after its mark. -/
def blockPart (fuel : Nat) : Parse Node :=
  match fuel with
  | 0 => throw .grammar
  | fuel + 1 => do
    if endsPair (← peek) then pure .empty else node fuel true true

/-- The entries of a block mapping. -/
def blockPairs (fuel : Nat) : Parse (List (Node × Node)) :=
  match fuel with
  | 0 => throw .grammar
  | fuel + 1 => do
    match ← peek with
    | .key =>
      drop
      let key ← blockPart fuel
      let value ← match ← peek with
        | .value => drop; blockPart fuel
        | _ => pure .empty
      pure ((key, value) :: (← blockPairs fuel))
    | .blockEnd =>
      drop
      pure []
    | _ => throw .grammar

/-- The value of an entry in brackets, with its mark. -/
def flowValue (fuel : Nat) (close : Token) : Parse Node :=
  match fuel with
  | 0 => throw .grammar
  | fuel + 1 => do
    match ← peek with
    | .value =>
      drop
      if endsFlow close (← peek) then pure .empty else node fuel false false
    | _ => pure .empty

/-- The key of an entry in brackets, after its mark. -/
def flowKey (fuel : Nat) (close : Token) : Parse Node :=
  match fuel with
  | 0 => throw .grammar
  | fuel + 1 => do
    let t ← peek
    if t == .value || endsFlow close t then pure .empty else node fuel false false

/-- The items between brackets. -/
def flowItems (fuel : Nat) (first : Bool) : Parse (List Node) :=
  match fuel with
  | 0 => throw .grammar
  | fuel + 1 => do
    if (← peek) == .closeBracket then
      drop
      return []
    if !first then
      if (← peek) == .comma then drop else throw .grammar
    match ← peek with
    | .key =>
      drop
      let key ← flowKey fuel .closeBracket
      let value ← flowValue fuel .closeBracket
      return .map (standardTag "map") [(key, value)] :: (← flowItems fuel false)
    | .closeBracket =>
      drop
      return []
    | _ =>
      let item ← node fuel false false
      return item :: (← flowItems fuel false)

/-- The entries between braces. -/
def flowPairs (fuel : Nat) (first : Bool) : Parse (List (Node × Node)) :=
  match fuel with
  | 0 => throw .grammar
  | fuel + 1 => do
    if (← peek) == .closeBrace then
      drop
      return []
    if !first then
      if (← peek) == .comma then drop else throw .grammar
    match ← peek with
    | .key =>
      drop
      let key ← flowKey fuel .closeBrace
      let value ← flowValue fuel .closeBrace
      return (key, value) :: (← flowPairs fuel false)
    | .closeBrace =>
      drop
      return []
    | _ =>
      let key ← node fuel false false
      return (key, .empty) :: (← flowPairs fuel false)

end

/-- Takes the ends of documents. -/
def dropEnds : Nat → Parse Unit
  | 0 => pure ()
  | fuel + 1 => do
    if (← peek) == .documentEnd then
      drop
      dropEnds fuel

/-- Takes the instructions before a document: whether a version was given, and the handles
defined. -/
def directives (version : Bool) (handles : List (String × String)) :
    Nat → Parse (List (String × String))
  | 0 => pure handles
  | fuel + 1 => do
    match ← peek with
    | .directive (.version major) =>
      if version || major != 1 then throw .grammar
      drop
      directives true handles fuel
    | .directive (.tag handle start) =>
      if (handles.lookup handle).isSome then throw .grammar
      drop
      directives version ((handle, start) :: handles) fuel
    | .directive .other =>
      drop
      directives version handles fuel
    | _ => pure handles

/-- The beginning of a document with its mark; `false` at the end of the text. -/
def explicitStart (fuel : Nat) : Parse Bool := do
  dropEnds fuel
  if (← peek) == .streamEnd then return false
  let handles ← directives false [] fuel
  modify fun s => { s with handles := handles ++ defaultHandles }
  if (← peek) != .documentStart then throw .grammar
  drop
  return true

/-- The end of the only document. -/
def finish (fuel : Nat) : Parse Unit := do
  if (← peek) == .documentEnd then drop
  if ← explicitStart fuel then throw .reference

/-- The document, if there is one. -/
def document (fuel : Nat) : Parse (Option Node) := do
  let marked := match ← peek with
    | .directive _ | .documentStart | .streamEnd => true
    | _ => false
  if marked then
    if !(← explicitStart fuel) then return none
    let n ← match ← peek with
      | .directive _ | .documentStart | .documentEnd | .streamEnd => pure .empty
      | _ => node fuel true false
    finish fuel
    return some n
  else
    modify fun s => { s with handles := defaultHandles }
    let n ← node fuel true false
    finish fuel
    return some n

end Parse

/-- Whether a character may stand in a text. -/
def isAllowed (c : Char) : Bool :=
  let n := c.toNat
  n == 0x09 || n == 0x0a || n == 0x0d || (0x20 ≤ n && n ≤ 0x7e) || n == 0x85 ||
    (0xa0 ≤ n && n ≤ 0xfffd) || 0x10000 ≤ n

/-- The node of the document in a text, if there is a document. -/
def nodeOf (half : Nat → Except Fault Char) (s : String) : Except Fault (Option Node) :=
  let cs := s.toList
  if cs.all isAllowed then
    let (ts, fault) := tokens half cs
    ((Parse.document (4 * ts.length + 8)).run ⟨ts, fault, [], []⟩).map (·.1)
  else .error .character

end Cadence.Yaml
