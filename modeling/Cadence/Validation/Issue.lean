/-
Issues found in a document.

An issue has the place where it was found, from the outside in, and a defect.  Checking goes on
after an issue, so that all issues of a document are reported at once, in the order of its fields.

* `Defect.code`, `Defect.message` — how a defect is reported;
* `Checked` — a value, or the issues that stand in its way;
* `Checked.apply` — puts checked parts together and keeps the issues of all of them.
-/
namespace Cadence.Validation

/-- A step of the way to an issue. -/
inductive Place where
  | name (name : String)
  | index (index : Int)
  deriving DecidableEq, Repr

/-- What is wrong at a place. -/
inductive Defect where
  | missing
  | notText
  | tooShort
  | notOneOf (options : List String)
  | notInteger
  | unreadableInteger
  | fractionalInteger
  | oversizedInteger
  | notNumber
  | unreadableNumber
  | notFinite
  | notPositive
  | notTruthValue
  | unreadableTruthValue
  | notList
  | notMapping
  | notModel (model : String)
  | notObject
  | noTag
  | unknownTag (tag : String)
  | notMoment
  | unreadableMoment (reason : String)
  | notUnicode
  | invalidJson (reason : String)
  | broken (reason : String)
  deriving DecidableEq, Repr

/-- Alternatives in a message: commas between them and "or" before the last one. -/
def alternatives : List String → String
  | [] => ""
  | [a] => a
  | [a, b] => a ++ " or " ++ b
  | a :: rest => a ++ ", " ++ alternatives rest

/-- The tags of the steps of a flow, in the order in which messages list them. -/
def stepTags : List String := ["fetch", "delay", "condition", "logic", "log", "notify"]

/-- A text between single quotes. -/
def between (s : String) : String := "'" ++ s ++ "'"

/-- The kind of a defect. -/
def Defect.code : Defect → String
  | .missing => "missing"
  | .notText => "string_type"
  | .tooShort => "string_too_short"
  | .notOneOf _ => "literal_error"
  | .notInteger => "int_type"
  | .unreadableInteger => "int_parsing"
  | .fractionalInteger => "int_from_float"
  | .oversizedInteger => "int_parsing_size"
  | .notNumber => "float_type"
  | .unreadableNumber => "float_parsing"
  | .notFinite => "finite_number"
  | .notPositive => "greater_than"
  | .notTruthValue => "bool_type"
  | .unreadableTruthValue => "bool_parsing"
  | .notList => "list_type"
  | .notMapping => "dict_type"
  | .notModel _ => "model_type"
  | .notObject => "model_attributes_type"
  | .noTag => "union_tag_not_found"
  | .unknownTag _ => "union_tag_invalid"
  | .notMoment => "datetime_type"
  | .unreadableMoment _ => "datetime_from_date_parsing"
  | .notUnicode => "string_unicode"
  | .invalidJson _ => "json_invalid"
  | .broken _ => "value_error"

/-- The wording of a defect. -/
def Defect.message : Defect → String
  | .missing => "Field required"
  | .notText => "Input should be a valid string"
  | .tooShort => "String should have at least 1 character"
  | .notOneOf options => "Input should be " ++ alternatives (options.map between)
  | .notInteger => "Input should be a valid integer"
  | .unreadableInteger => "Input should be a valid integer, unable to parse string as an integer"
  | .fractionalInteger => "Input should be a valid integer, got a number with a fractional part"
  | .oversizedInteger => "Unable to parse input string as an integer, exceeded maximum size"
  | .notNumber => "Input should be a valid number"
  | .unreadableNumber => "Input should be a valid number, unable to parse string as a number"
  | .notFinite => "Input should be a finite number"
  | .notPositive => "Input should be greater than 0"
  | .notTruthValue => "Input should be a valid boolean"
  | .unreadableTruthValue => "Input should be a valid boolean, unable to interpret input"
  | .notList => "Input should be a valid list"
  | .notMapping => "Input should be a valid dictionary"
  | .notModel model => s!"Input should be a valid dictionary or instance of {model}"
  | .notObject => "Input should be a valid dictionary or object to extract fields from"
  | .noTag => "Unable to extract tag using discriminator 'type'"
  | .unknownTag tag =>
    s!"Input tag '{tag}' found using 'type' does not match any of the expected tags: " ++
      ", ".intercalate (stepTags.map between)
  | .notMoment => "Input should be a valid datetime"
  | .unreadableMoment reason => s!"Input should be a valid datetime or date, {reason}"
  | .notUnicode => "Input should be a valid string, unable to parse raw data as a unicode string"
  | .invalidJson reason => s!"Invalid JSON: {reason}"
  | .broken reason => s!"Value error, {reason}"

/-- A defect and where it was found. -/
structure Issue where
  place : List Place
  defect : Defect
  deriving DecidableEq, Repr

/-- A value, or the issues that stand in its way. -/
abbrev Checked (α : Type) := Except (List Issue) α

namespace Checked

variable {α β : Type}

/-- A defect of the value itself. -/
def fail (d : Defect) : Checked α := .error [⟨[], d⟩]

/-- Moves issues one step outward. -/
def within (p : Place) (c : Checked α) : Checked α :=
  c.mapError fun issues => issues.map fun i => ⟨p :: i.place, i.defect⟩

/-- Puts two checked parts together and keeps the issues of both. -/
def apply (f : Checked (α → β)) (c : Checked α) : Checked β :=
  match f, c with
  | .ok f, .ok a => .ok (f a)
  | .ok _, .error e => .error e
  | .error e, .ok _ => .error e
  | .error e, .error e' => .error (e ++ e')

/-- Checks each item of a list under its index. -/
def each (check : α → Checked β) : Int → List α → Checked (List β)
  | _, [] => .ok []
  | i, a :: rest =>
    apply ((within (.index i) (check a)).map List.cons) (each check (i + 1) rest)

end Checked

end Cadence.Validation
