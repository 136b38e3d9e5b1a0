/-
Settings.

They are read from a file, if there is one, and have defaults.  A variable may name the file, and
variables may give the address of the store.

* `Settings.load` — the settings around a program.
-/
import Cadence.Host
import Cadence.Text.File
import Cadence.Validation.Scalar
import Cadence.Yaml.Value

namespace Cadence

open Validation

/-- Settings. -/
structure Settings where
  /-- The address of the store. -/
  store : Option String
  /-- How many runs the history of a flow keeps. -/
  history : Nat
  /-- The seconds from one sweep to the next. -/
  interval : Float
  /-- The seconds that a response is waited for. -/
  patience : Float
  deriving Inhabited, Repr

/-- Why there are no settings. -/
inductive SettingsFault where
  | folder
  | encoding (fault : Text.Utf8Fault)
  | yaml (fault : Yaml.Fault)
  /-- The file holds something else than fields. -/
  | notFields
  | invalid (issues : List Issue)
  deriving DecidableEq, Repr

namespace Settings

/-- How many runs a history keeps by default. -/
def defaultHistory : Nat := 50

/-- The seconds between sweeps by default. -/
def defaultInterval : Float := 15.0

/-- The seconds that a response is waited for by default. -/
def defaultPatience : Float := 30.0

/-- The settings by default. -/
def defaults : Settings := ⟨none, defaultHistory, defaultInterval, defaultPatience⟩

/-- A positive number that is the only field of a group of settings. -/
def group (model field : String) (default : Float) : Document → Checked Float
  | .map entries => withDefault field default positiveNumber entries
  | _ => Checked.fail (.notModel model)

/-- The settings in the fields of a file. -/
def ofEntries (es : List (Document × Document)) : Checked Settings :=
  Checked.apply (Checked.apply (Checked.apply (Checked.apply (.ok Settings.mk)
    (withDefault "database_url" none (optional text) es))
    (withDefault "history_limit" defaultHistory positiveInteger es))
    (withDefault "scheduler" defaultInterval
      (group "SchedulerConfig" "interval_seconds" defaultInterval) es))
    (withDefault "http" defaultPatience
      (group "HttpConfig" "timeout_seconds" defaultPatience) es)

/-- Whether a document stands for nothing at all. -/
def isVacant : Document → Bool
  | .null => true
  | .bool b => !b
  | .int n => n == 0
  | .float x => x == 0.0
  | .str s => s.isEmpty
  | .bytes bs => bs.isEmpty
  | .seq items => items.isEmpty
  | .map entries => entries.isEmpty
  | .date _ | .moment _ => false

/-- Whether a document is a text. -/
def isTextual : Document → Bool
  | .str _ => true
  | _ => false

/-- The settings in the document of a file. -/
def ofDocument (d : Document) : Except SettingsFault Settings :=
  if isVacant d then .ok defaults
  else
    match d with
    | .map entries =>
      if entries.all fun e => isTextual e.1 then (ofEntries entries).mapError .invalid
      else .error .notFields
    | _ => .error .notFields

/-- The text of a file that is read piece by piece. An unfinished character at its end is a piece of
its own. -/
def pieceText (bytes : List UInt8) : Except Text.Utf8Fault String :=
  (Text.fileText bytes).mapError fun f =>
    if f.flaw = .truncated then { f with place := 0 } else f

/-- The path of the file with the settings. -/
def path (h : Host) (given : Option String) : String :=
  (given.filter (!·.isEmpty)).getD ((h.env? "NEXFLOW_CONFIG").getD "nexflow.yaml")

/-- The settings in a file; without a file those by default. -/
def read (h : Host) (path : String) : Except SettingsFault Settings :=
  match h.file? path with
  | some bytes => do
    let s ← (pieceText bytes).mapError .encoding
    ofDocument (← (Yaml.read s).mapError .yaml)
  | none => if h.isFolder path then .error .folder else .ok defaults

/-- The address of the store that variables give. -/
def storeVariable? (h : Host) : Option String :=
  (h.setting? "NEXFLOW_DATABASE_URL").orElse fun _ => h.setting? "DATABASE_URL"

/-- The settings around a program, from a given file or the usual one. -/
def load (h : Host) (given : Option String) : Except SettingsFault Settings := do
  let s ← read h (path h given)
  pure { s with store := (storeVariable? h).orElse fun _ => s.store }

end Settings

end Cadence
