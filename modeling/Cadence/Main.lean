/-
The command line as a program.

It works with the files and variables around it.  A store in a file is kept there as one JSON text.
There is no network, so that requests fail, and waiting takes no time.
-/
import Std.Time.DateTime.Timestamp
import Cadence.Command.Perform
import Cadence.Json.Print
import Cadence.Text.Uuid

open Cadence

/-- What a path leads to. -/
inductive Found where
  | nothing
  | folder
  | file (content : List UInt8)

/-- Looks at a path. -/
def lookAt (path : String) : IO Found := do
  try
    return .file (← IO.FS.readBinFile path).toList
  catch
    | .inappropriateType .. => return .folder
    | _ => return .nothing

/-- The files and variables around the program, as far as the paths given and the settings go. -/
def surroundingHost (paths : List String) : IO Host := do
  let found ← paths.mapM fun path => do return (path, ← lookAt path)
  let names := ["NEXFLOW_CONFIG", "NEXFLOW_DATABASE_URL", "DATABASE_URL"]
  let env ← names.mapM fun name => do return (name, ← IO.getEnv name)
  return {
    file? := fun path => match found.lookup path with
      | some (.file content) => some content
      | _ => none
    isFolder := fun path => match found.lookup path with
      | some .folder => true
      | _ => false
    env? := fun name => (env.lookup name).join }

/-- The time as the number of microseconds since the beginning of the year 1. -/
def timeNow : IO Calendar.Instant := do
  let t ← Std.Time.Timestamp.now
  let unixEpoch : Int := Calendar.dayNumber ⟨1970, 1, 1⟩ * Calendar.day
  return ⟨unixEpoch + t.toNanosecondsSinceUnixEpoch.val / 1000⟩

/-- Refuses all requests. -/
def noNetwork : Server := fun _ _ => ⟨0, .error ⟨"ConnectError", "no network"⟩⟩

/-- The store in a file, if the file holds one. -/
def storeIn? (h : Host) (path : String) : Option Table := do
  let content ← h.file? path
  let s ← (Text.fileText content).toOption
  Table.ofJson? .limited (← (Json.read s).toOption)

/-- The path of the store, if it is in a file. -/
def storePath? (h : Host) : Option String :=
  match Depot.locate h false none none with
  | .ok (_, .file path) => if Depot.isPassing path then none else some path
  | _ => none

/-- Writes the stores down in their files. -/
def keep (d : Depot) : IO Unit :=
  d.saved.files.forM fun (path, t) => IO.FS.writeFile path t.toJson.render

/-- Performs the command of a command line. -/
def main (args : List String) : IO UInt32 := do
  let config := (← IO.getEnv "NEXFLOW_CONFIG").getD "nexflow.yaml"
  let paths := config :: args.map Text.tidyPath
  let path? := storePath? (← surroundingHost paths)
  let host ← surroundingHost (path?.toList ++ path?.toList.map Text.pathFolder ++ paths)
  let files := path?.toList.filterMap fun path => (storeIn? host path).map fun t =>
    (Text.tidyPath path, t)
  let seed := (← IO.getRandomBytes 16).toList.foldl (fun n b => 256 * n + b.toNat) 0
  let world := Surroundings.start (← timeNow) noNetwork fun n => Text.uuid (seed + n * Nat.pow 2 64)
  let (exit, lines, desk) :=
    (Desk.mk host false world ⟨.limited, files, none⟩ 1000000 []).answer args
  lines.forM IO.println
  desk.world.reports.reverse.forM fun r => IO.eprintln r.text
  keep desk.depot
  match exit with
  | .success => return 0
  | .failure => return 1
  | .misuse =>
    IO.eprintln "The arguments make no command."
    return 2
  | .broken _ =>
    IO.eprintln "The command broke down."
    return 1
