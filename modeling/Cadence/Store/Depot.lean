/-
Finding a store.

The address of a store says of which kind it is and where.  A store that has been opened is used
again until another one is asked for.  What a store in a file holds is still there when the file is
opened again; what is in memory is gone.

* `Site.ofAddress` — the place that an address means;
* `Depot.obtain` — opens the store that is asked for, or keeps the open one;
* `Depot.reset` — closes the open store.
-/
import Cadence.Settings
import Cadence.Store.Backend

namespace Cadence

/-- Where a store is. -/
inductive Site where
  | memory
  | file (path : String)
  | server (address : String)
  deriving DecidableEq, Inhabited, Repr

/-- Why no store is found. -/
inductive DepotFault where
  | settings (fault : SettingsFault)
  /-- An address of an unknown kind. -/
  | unsupported (address : String)
  /-- Stores on servers are not available. -/
  | noServers
  /-- The file of a store cannot be opened. -/
  | unopened
  /-- A file is no store. -/
  | notStore
  deriving DecidableEq, Repr

/-- The wording of a fault, if it has one. -/
def DepotFault.message? : DepotFault → Option String
  | .unsupported address => some s!"Unsupported database backend: {address}"
  | .noServers => some "Postgres support not available; install nexflow[postgres]"
  | .settings _ | .unopened | .notStore => none

/-- What follows a given beginning of a text. -/
def afterStart? (start s : String) : Option String :=
  if Text.startsWith s start then some (String.ofList (s.toList.drop start.length)) else none

/-- The place that an address means. -/
def Site.ofAddress (servers : Bool) (address : String) : Except DepotFault Site :=
  match afterStart? "sqlite://" address with
  | some path => .ok (.file path)
  | none =>
    if Text.startsWith address "postgres://" || Text.startsWith address "postgresql://" then
      if servers then .ok (.server address) else .error .noServers
    else .error (.unsupported address)

/-- An open store. -/
structure OpenStore where
  site : Site
  limit : Nat
  store : Store
  deriving Inhabited

/-- The stores in files, by path, and the open store. -/
structure Depot where
  /-- How new stores write down their records. -/
  codec : Codec
  files : List (String × Table)
  current : Option OpenStore
  deriving Inhabited

namespace Depot

/-- No stores. -/
def empty (codec : Codec) : Depot := ⟨codec, [], none⟩

/-- Whether the store at a path is in no file that stays. -/
def isPassing (path : String) : Bool := path.isEmpty || path == ":memory:"

/-- Puts down what the open store holds. -/
def saved (d : Depot) : Depot :=
  match d.current with
  | some ⟨.file path, _, .table t⟩ =>
    if isPassing path then d else { d with files := put (Text.tidyPath path) t d.files }
  | _ => d

/-- Closes the open store. -/
def reset (d : Depot) : Depot := { d.saved with current := none }

/-- Opens the tables in a file. A new file needs a folder; an old one that is not empty and was not
written by a store is none. -/
def openFile (h : Host) (path : String) (limit : Nat) (d : Depot) : Except DepotFault Table :=
  let fresh : Table := .empty d.codec limit
  if isPassing path then .ok fresh
  else
    match d.files.lookup (Text.tidyPath path) with
    | some t => .ok { t with limit := limit }
    | none =>
      if h.isFolder path then .error .unopened
      else
        match h.file? path with
        | some content => if content.isEmpty then .ok fresh else .error .notStore
        | none => if h.isFolder (Text.pathFolder path) then .ok fresh else .error .unopened

/-- Opens the store at a place. -/
def openAt (h : Host) (limit : Nat) (d : Depot) (site : Site) : Except DepotFault Store :=
  match site with
  | .memory => .ok (.memory (.empty limit))
  | .file path => (d.openFile h path limit).map .table
  | .server _ => .ok .remote

/-- Whether the open store is used when an address and settings are given. -/
def keeps (d : Depot) (address : Option String) (settings : Option Settings) : Bool :=
  d.current.isSome && address.isNone && settings.isNone

/-- The settings and the place of the store, whose address is given, or else named by variables or
settings. -/
def locate (h : Host) (servers : Bool) (address : Option String) (settings : Option Settings) :
    Except DepotFault (Settings × Site) := do
  let s ← match settings with
    | some s => pure s
    | none => (Settings.load h none).mapError .settings
  let known := (Settings.storeVariable? h).orElse fun _ => s.store.filter (!·.isEmpty)
  match (address.filter (!·.isEmpty)).orElse fun _ => known with
  | none => pure (s, .memory)
  | some a => pure (s, ← Site.ofAddress servers a)

/-- Opens the store at an address that is given, or else named by variables or settings. -/
def openStore (h : Host) (servers : Bool) (address : Option String) (settings : Option Settings)
    (d : Depot) : Except DepotFault Depot := do
  let (s, site) ← locate h servers address settings
  let d := d.saved
  let store ← d.openAt h s.history site
  pure { d with current := some ⟨site, s.history, store⟩ }

/-- The depot after a store was asked for: the open one is used again unless an address or settings
are given. -/
def obtain (h : Host) (servers : Bool) (address : Option String) (settings : Option Settings)
    (d : Depot) : Except DepotFault Depot :=
  if d.keeps address settings then .ok d else d.openStore h servers address settings

/-- The open store. -/
def store? (d : Depot) : Option Store := d.current.map (·.store)

/-- Puts a store in the place of the open one. -/
def withStore (d : Depot) (s : Store) : Depot :=
  { d with current := d.current.map fun o => { o with store := s } }

end Depot

end Cadence
