/-
Reading flows from files.

The end of a file's name tells whether it holds YAML or JSON.

A text may hold escapes for halves of surrogate pairs.  Where they are is told by reading it twice,
with other characters for them: what the two readings do not share stands for halves.

* `Flow.halfIssues` — the texts of a flow that are refused for them;
* `Flow.load` — the flow that a file defines.
-/
import Cadence.Flow.Dump
import Cadence.Flow.Validate
import Cadence.Host
import Cadence.Json.Half
import Cadence.Text.Case
import Cadence.Text.File
import Cadence.Yaml.Value

namespace Cadence

/-- Why a file gives no flow. -/
inductive FlowFileFault where
  /-- The name of the file has another end. -/
  | unsupported (suffix : String)
  | missing
  | folder
  | encoding (fault : Text.Utf8Fault)
  | json (fault : Json.ReadError)
  /-- A text of the flow holds half of a surrogate pair, which no text holds here. -/
  | half
  | yaml (fault : Yaml.Fault)
  /-- The file holds something else than a mapping. -/
  | notMapping (path : String)
  | invalid (issues : List Validation.Issue)
  deriving DecidableEq, Repr

/-- The wording of a fault, if it has one. -/
def FlowFileFault.message? : FlowFileFault → Option String
  | .unsupported suffix =>
    some s!"Unsupported flow file type '{suffix}'; expected one of .json, .yaml, .yml"
  | .encoding f => some f.message
  | .json f => some f.message
  | .yaml (.value reason) => some reason
  | .notMapping path => some s!"{path} does not contain a flow mapping"
  | .missing | .folder | .half | .yaml _ | .invalid _ => none

/-- How the document in a file is written. -/
inductive FileFormat where
  | json | yaml
  deriving DecidableEq, Repr

/-- The format that the end of a file's name tells, in any letter case. -/
def FileFormat.ofSuffix? (suffix : String) : Option FileFormat :=
  if suffix == ".json" then some .json
  else if suffix == ".yaml" || suffix == ".yml" then some .yaml
  else none

/-- The document that a text writes in a format. Characters of a private plane stand for halves of
surrogate pairs. -/
def FileFormat.read (plane : Nat) (format : FileFormat) (s : String) :
    Except FlowFileFault Document :=
  match format with
  | .json => ((Json.readWith (Json.halfIn plane) s).mapError .json).map .ofJson
  | .yaml => (Yaml.readWith (fun n => .ok (Json.halfIn plane n)) s).mapError .yaml

namespace Flow

/-- The flow that a text defines, with characters of a private plane for halves of surrogate pairs.
The text stands in the file with the given path. -/
def ofText (plane : Nat) (format : FileFormat) (path s : String) : Except FlowFileFault Flow := do
  match ← format.read plane s with
  | .map entries => (Flow.ofDocument (.map entries)).mapError .invalid
  | _ => throw (.notMapping path)

/-- The texts of a flow that may not be empty, and their places. -/
def filledTexts (f : Flow) : List (List Validation.Place × String) :=
  ([.name "name"], f.name) :: f.steps.zipIdx.filterMap fun (s, i) =>
    s.fetchId?.map fun id => ([.name "steps", .index i, .name "fetch", .name "id"], id)

/-- The issues that two readings of a flow with other characters for halves of surrogate pairs show.
The length of a text is told only if it is one of characters. -/
def halfIssues (f g : Flow) : List Validation.Issue :=
  (f.filledTexts.zip g.filledTexts).filterMap fun ((place, s), (_, t)) =>
    if s = t then none else some ⟨place, .notUnicode⟩

/-- The flow that two readings share. -/
def agreed (f g : Flow) : Except FlowFileFault Flow :=
  match f.halfIssues g with
  | [] => if f.toJson.render = g.toJson.render then .ok f else .error .half
  | issues => .error (.invalid issues)

/-- The flow that a file defines. -/
def load (h : Host) (path : String) : Except FlowFileFault Flow := do
  let path := Text.tidyPath path
  let suffix := Text.lower (Text.pathSuffix path)
  match FileFormat.ofSuffix? suffix, h.file? path with
  | none, _ => throw (.unsupported suffix)
  | some _, none => throw (if h.isFolder path then .folder else .missing)
  | some format, some content =>
    let s ← (Text.fileText content).mapError .encoding
    let f ← ofText 15 format path s
    match ofText 16 format path s with
    | .ok g => f.agreed g
    | .error _ => throw .half

end Flow

end Cadence
