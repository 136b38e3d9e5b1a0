/-
The document that a YAML text writes.

Each node has the value that its tag gives to its content.  An entry with the key `<<` brings the
entries of other mappings into a mapping, before its own ones.  Of equal keys the first one gives
the place and the last one the value.

Of several faults in a text that is well formed the outermost one counts, and of those in one depth
the first one.

* `Node.value` — the document of a node;
* `readWith` — the document of a text, with given characters for halves of surrogate pairs; where
  there is none it is null;
* `read` — the document of a text of characters.
-/
import Cadence.Text.Base64
import Cadence.Yaml.Node
import Cadence.Yaml.Number

namespace Cadence.Yaml

open Cadence.Text

/-- A value, or a fault and how deep it lies. -/
abbrev Outcome (α : Type) := Except (Nat × Fault) α

namespace Outcome

variable {α β γ : Type}

/-- A fault at the node itself. -/
def atNode (r : Except Fault α) : Outcome α := r.mapError fun f => (0, f)

/-- A fault in what a node holds. -/
def below (o : Outcome α) : Outcome α := o.mapError fun (d, f) => (d + 1, f)

/-- Two outcomes together: of two faults the outer one counts, else the first one. -/
def both (f : α → β → γ) (a : Outcome α) (b : Outcome β) : Outcome γ :=
  match a, b with
  | .ok a, .ok b => .ok (f a b)
  | .error e, .ok _ => .error e
  | .ok _, .error e => .error e
  | .error e, .error e' => .error (if e'.1 < e.1 then e' else e)

/-- Outcomes together. -/
def all : List (Outcome α) → Outcome (List α)
  | [] => .ok []
  | o :: rest => both List.cons o (all rest)

end Outcome

/-- The kinds of content that tags ask for. -/
inductive Kind where
  | null | bool | int | float | binary | timestamp | str
  | seq | map | set | pairs
  deriving DecidableEq, Repr

/-- The kinds by their names. -/
def Kind.byName : List (String × Kind) := [
  ("null", .null), ("bool", .bool), ("int", .int), ("float", .float), ("binary", .binary),
  ("timestamp", .timestamp), ("str", .str), ("seq", .seq), ("map", .map), ("set", .set),
  ("omap", .pairs), ("pairs", .pairs)]

/-- The kind that a tag asks for. -/
def Kind.ofTag? (tag : String) : Option Kind :=
  byName.findSome? fun (name, kind) => if standardTag name = tag then some kind else none

/-- The value of a scalar of a kind; none for the kinds that hold other nodes. -/
def Kind.read? (kind : Kind) (s : String) : Option (Except Fault Document) :=
  match kind with
  | .null => some (.ok .null)
  | .bool =>
    some (match truthWords.lookup (String.ofList (s.toList.map Char.toLower)) with
      | some b => .ok (.bool b)
      | none => .error .word)
  | .int => some ((integer s).map .int)
  | .float => some ((number s).map .float)
  | .binary =>
    some (match if s.toList.all (·.toNat < 0x80) then base64? s else none with
      | some bs => .ok (.bytes bs)
      | none => .error .content)
  | .timestamp => some (pointInTime s)
  | .str => some (.ok (.str s))
  | .seq | .map | .set | .pairs => none

/-- Whether an entry brings in the entries of other mappings. -/
def isMergeKey (key : Node) : Bool := key.tag == standardTag "merge"

/-- Whether a key is the mark that stands for a text of one equality sign. -/
def isValueKey (key : Node) : Bool := key.tag == standardTag "value"

/-- Whether a floating-point number has the value of an integer. -/
def isWhole (x : Float) (n : Int) : Bool :=
  match Decimal.Parts.ofFloat x with
  | none => false
  | some p =>
    let f := Decimal.twoFraction p.significand p.exponent
    (if p.negative then -(f.1 : Int) else f.1) == n * f.2

/-- Whether two keys are one: numbers and truth values count by their value. -/
def sameKey (a b : Document) : Bool :=
  match plainNumber a, plainNumber b with
  | .int m, .int n => m == n
  | .int m, .float y => isWhole y m
  | .float x, .int n => isWhole x n
  | .float x, .float y => x == y || (x.isNaN && y.isNaN)
  | .null, .null => true
  | .str s, .str t => s == t
  | .bytes s, .bytes t => s == t
  | .date d, .date e => d == e
  | .moment l, .moment r =>
    l.offset.isSome == r.offset.isSome && l.wall - l.offset.getD 0 == r.wall - r.offset.getD 0
  | _, _ => false
where
  plainNumber : Document → Document
    | .bool b => .int (if b then 1 else 0)
    | d => d

/-- Puts an entry into a mapping. -/
def putEntry (entries : List (Document × Document)) (e : Document × Document) :
    List (Document × Document) :=
  if entries.any fun old => sameKey old.1 e.1 then
    entries.map fun old => if sameKey old.1 e.1 then (old.1, e.2) else old
  else entries ++ [e]

/-- A mapping from entries, of which some may have the same key. -/
def mapping (entries : List (Document × Document)) : List (Document × Document) :=
  entries.foldl putEntry []

/-- The outcome of a key. Sequences and mappings are no keys, whatever they hold. -/
def keyOutcome : Outcome Document → Outcome Document
  | .ok (.seq _) | .ok (.map _) | .error (_ + 1, _) => .error (0, .content)
  | o => o

/-- The outcomes of a key and its value. -/
abbrev Entry := Outcome Document × Outcome Document

/-- The entries of a mapping: those brought in and its own ones. -/
structure Entries where
  merged : List Entry
  own : List Entry

/-- All entries in their order. -/
def Entries.all (es : Entries) : List Entry := es.merged ++ es.own

/-- The outcome of a mapping from those of its entries. -/
def mapOutcome (result : List (Document × Document) → Document)
    (entries : Except Fault (List Entry)) :
    Outcome Document :=
  Outcome.below do
    let es ← Outcome.atNode entries
    let pairs ← Outcome.all (es.map fun (k, v) => Outcome.both Prod.mk (keyOutcome k) v)
    pure (result (mapping pairs))

mutual

/-- The text of a node. A mapping has that of its entry with the mark for values. -/
def text? : Node → Option String
  | .scalar _ s => some s
  | .seq _ _ => none
  | .map _ entries => markedText? entries

/-- The text of the entry with the mark for values. -/
def markedText? : List (Node × Node) → Option String
  | [] => none
  | (key, n) :: rest => if isValueKey key then text? n else markedText? rest

end

mutual

/-- The document of a node. -/
def Node.value (n : Node) : Outcome Document :=
  match Kind.ofTag? n.tag with
  | none => .error (0, .content)
  | some kind =>
    match n with
    | .scalar _ s => ((kind.read? s).map Outcome.atNode).getD (.error (1, .content))
    | .seq _ items =>
      match kind with
      | .seq => Outcome.below ((Outcome.all (values items)).map Document.seq)
      | .pairs =>
        Outcome.below do
          let pairs ← onlyEntries items
          pure (.seq pairs)
      | .map | .set => .error (1, .content)
      | _ => .error (0, .content)
    | .map _ entries =>
      match kind with
      | .map => mapOutcome .map ((entriesOf entries).map Entries.all)
      | .set => mapOutcome (fun es => .seq (es.map (·.1))) ((entriesOf entries).map Entries.all)
      | .seq | .pairs => .error (1, .content)
      | kind =>
        match (markedText? entries).bind kind.read? with
        | some r => Outcome.atNode r
        | none => .error (0, .content)

/-- The documents of nodes. -/
def values : List Node → List (Outcome Document)
  | [] => []
  | n :: rest => n.value :: values rest

/-- The entries of mappings with one entry each, as sequences of two. -/
def onlyEntries : List Node → Outcome (List Document)
  | [] => .ok []
  | .map _ [(k, v)] :: rest =>
    Outcome.both List.cons (Outcome.both (fun k v => Document.seq [k, v]) k.value v.value)
      (onlyEntries rest)
  | _ :: _ => .error (0, .content)

/-- The entries of a mapping. -/
def entriesOf : List (Node × Node) → Except Fault Entries
  | [] => .ok ⟨[], []⟩
  | (k, v) :: rest =>
    if isMergeKey k then do
      let found ← mergedOf v
      let es ← entriesOf rest
      pure ⟨found ++ es.merged, es.own⟩
    else do
      let key :=
        if isValueKey k then
          match text? k with
          | some s => .ok (.str s)
          | none => .error (0, .content)
        else k.value
      let value := v.value
      let es ← entriesOf rest
      pure ⟨es.merged, (key, value) :: es.own⟩

/-- The entries that a mapping, or the mappings of a sequence, bring in. -/
def mergedOf : Node → Except Fault (List Entry)
  | .scalar _ _ => .error .content
  | .map _ entries => (entriesOf entries).map Entries.all
  | .seq _ items => mergedItems items

/-- The entries of the mappings of a sequence, the last one first. -/
def mergedItems : List Node → Except Fault (List Entry)
  | [] => .ok []
  | .map _ entries :: rest => do
    let es ← entriesOf entries
    pure ((← mergedItems rest) ++ es.all)
  | _ :: _ => .error .content

end

/-- The document of a text; where there is none it is null. `half` says what stands for half of a
surrogate pair. -/
def readWith (half : Nat → Except Fault Char) (s : String) : Except Fault Document := do
  match ← nodeOf half s with
  | none => pure .null
  | some n => n.value.mapError (·.2)

/-- The document of a text of characters. -/
def read (s : String) : Except Fault Document := readWith (fun _ => .error .half) s

end Cadence.Yaml
