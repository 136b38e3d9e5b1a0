/-
Rules that compare a looked-up value with a fixed target.

When both sides read as numbers the comparison is one of numbers, otherwise one of texts.  A value
that is missing or null is equal to nothing and is ordered like the empty text.

* `number?` — the number that a value reads as;
* `Rule.holds` — whether a rule holds of the results of a run;
* `Mode.combine` — several rules joined by "and" or "or".
-/
import Cadence.Template

namespace Cadence

/-- The ways to compare. -/
inductive Comparison where
  | eq | ne | lt | gt | le | ge
  deriving DecidableEq, Inhabited, Repr

/-- How a comparison is written. -/
def Comparison.symbol : Comparison → String
  | .eq => "="
  | .ne => "!="
  | .lt => "<"
  | .gt => ">"
  | .le => "<="
  | .ge => ">="

/-- All comparisons, in the order in which messages list them. -/
def Comparison.all : List Comparison := [.eq, .ne, .lt, .gt, .le, .ge]

/-- The target of a rule. -/
inductive Scalar where
  | int (value : Int)
  | float (value : Float)
  | text (value : String)
  deriving Inhabited, Repr

/-- A target as a value. -/
def Scalar.toJson : Scalar → Json
  | .int n => .int n
  | .float x => .float x
  | .text s => .str s

/-- A rule: compare the value at `input` with `target`. -/
structure Rule where
  input : String
  operator : Comparison
  target : Scalar
  deriving Inhabited, Repr

/-- What keeps a rule from being decided. -/
inductive RuleFault where
  | path (fault : Decimal.IntegerFault)
  | text (fault : Decimal.IntegerFault)
  | tooLarge
  deriving DecidableEq, Repr

/-- The number that a value reads as: numbers and truth values as they are, texts by their decimal
notation. An integer beyond the floating-point range is refused. -/
def number? : Json → Except RuleFault (Option Float)
  | .bool b => .ok (some (if b then 1.0 else 0.0))
  | .int n =>
    let x := Decimal.nearestInt n
    if x.isInf then .error .tooLarge else .ok (some x)
  | .float x => .ok (if x.isNaN then none else some x)
  | .str s => .ok ((Decimal.float? s).filter fun x => !x.isNaN)
  | _ => .ok none

/-- Compares two numbers. -/
def Comparison.numbers (op : Comparison) (x y : Float) : Bool :=
  match op with
  | .eq => x == y
  | .ne => !(x == y)
  | .lt => x < y
  | .gt => y < x
  | .le => x ≤ y
  | .ge => y ≤ x

/-- Compares two texts, character by character. -/
def Comparison.texts (op : Comparison) (s t : String) : Bool :=
  match op with
  | .eq => s == t
  | .ne => !(s == t)
  | .lt => s < t
  | .gt => t < s
  | .le => !(t < s)
  | .ge => !(s < t)

/-- Compares two values: as numbers if both are, else as texts, null counting as the empty text and
as different from every text. -/
def Comparison.values (op : Comparison) (value target : Json) : Except RuleFault Bool := do
  let x ← number? value
  let y ← number? target
  match x, y with
  | some x, some y => pure (op.numbers x y)
  | _, _ =>
    match value, op with
    | .null, .eq => pure false
    | .null, .ne => pure true
    | .null, _ => do
      let t ← target.shown.mapError .text
      pure (op.texts "" t)
    | v, _ => do
      let s ← v.shown.mapError .text
      let t ← target.shown.mapError .text
      pure (op.texts s t)

/-- Whether a rule holds of the results of a run. -/
def Rule.holds (rule : Rule) (results : Results) : Except RuleFault Bool := do
  let value ← ((Json.obj results).lookupOrNull rule.input).mapError .path
  rule.operator.values value rule.target.toJson

/-- How several rules are joined. -/
inductive Mode where
  | all | any
  deriving DecidableEq, Repr

/-- The word for a mode. -/
def Mode.word : Mode → String
  | .all => "AND"
  | .any => "OR"

/-- Joins truth values. -/
def Mode.combine : Mode → List Bool → Bool
  | .all, bs => bs.all id
  | .any, bs => bs.any id

/-- Whether joined rules hold. Every rule is decided, also when the first ones settle the answer. -/
def Mode.holds (mode : Mode) (rules : List Rule) (results : Results) : Except RuleFault Bool := do
  let bs ← rules.mapM (·.holds results)
  pure (mode.combine bs)

/-- The wording of a rule fault. -/
def RuleFault.message : RuleFault → String
  | .path f | .text f => f.message
  | .tooLarge => "int too large to convert to float"

end Cadence
