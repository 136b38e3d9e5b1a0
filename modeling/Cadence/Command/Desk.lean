/-
What commands work with.

A command reads files and variables, uses a store, lets time pass and writes lines.  It ends
well, or with a failure that it explains, or with a fault that it did not expect; what it
wrote and did until then stays.

* `Desk` — everything that commands work with;
* `Act` — a piece of a command;
* `Desk.perform` — a piece of a command as a whole: its end, its lines and the desk after it.
-/
import Cadence.Flow.File
import Cadence.Scheduler.Engine
import Cadence.Store.Depot

namespace Cadence

open Calendar

/-- Everything that commands work with. -/
structure Desk where
  host : Host
  /-- Whether stores on servers are available. -/
  servers : Bool
  world : Surroundings
  depot : Depot
  /-- How many steps runs and sweeps may take. -/
  steps : Nat
  /-- The lines that were written, the last one first. -/
  lines : List String

/-- What a command does not expect. -/
inductive CommandFault where
  | depot (fault : DepotFault)
  | file (fault : FlowFileFault)
  | store (fault : StoreFault)
  | range (fault : RangeFault)
  /-- The search for an occurrence starts in the last second of the calendar. -/
  | lastSecond
  /-- Runs and sweeps took more steps than allowed. -/
  | unfinished
  deriving Inhabited, Repr

/-- How a command ends. -/
inductive Exit where
  | success
  /-- What kept the command from its work has been explained. -/
  | failure
  /-- The arguments make no command. -/
  | misuse
  | broken (fault : CommandFault)
  deriving Inhabited, Repr

/-- A piece of a command. -/
abbrev Act := ExceptT Exit (StateM Desk)

/-- The client that waits for responses as long as the settings say. -/
def Settings.client (s : Settings) : Http.Client := ⟨true, (secondsMicros s.patience).toNat, false⟩

namespace Act

/-- Writes a line. -/
def say (line : String) : Act Unit := modify fun d => { d with lines := line :: d.lines }

/-- Writes lines. -/
def sayAll (lines : List String) : Act Unit := lines.forM say

/-- Ends the command with an explanation. -/
def fail {α : Type} (line : String) : Act α := do
  say line
  throw .failure

/-- Ends the command with a fault. -/
def broken {α : Type} (fault : CommandFault) : Act α := throw (.broken fault)

/-- The settings. -/
def settings : Act Settings := do
  match Settings.load (← get).host none with
  | .ok s => pure s
  | .error f => broken (.depot (.settings f))

/-- Makes sure that a store is open. -/
def openStore : Act Unit := do
  let d ← get
  match d.depot.obtain d.host d.servers none none with
  | .ok depot => set { d with depot := depot }
  | .error f => broken (.depot f)

/-- A store with everything around it, at rest. -/
def engine (interpret : Interpreter) : Act Engine := do
  let d ← get
  pure (.start d.world (d.depot.store?.getD .remote) interpret)

/-- Takes over what became of a store and of everything around it. -/
def take (s : Engine) : Act Unit :=
  modify fun d => { d with world := s.world, depot := d.depot.withStore s.store }

/-- A fault of the store; problems are explained. -/
def refuse {α : Type} : StoreFault → Act α
  | .problem p => fail p.message
  | fault => broken (.store fault)

/-- Makes a request to the store. -/
def request (op : Operation) : Act (Except StoreFault Answer) := do
  let (answer, s) := (← engine (interpreter Settings.defaults.client)).ask op
  take s
  pure answer

/-- The answer to a request. -/
def ask (op : Operation) : Act Answer := do
  match ← request op with
  | .ok a => pure a
  | .error fault => refuse fault

/-- The flow that a request answers with. -/
def askFlow (op : Operation) : Act StoredFlow := do
  match (← ask op).flow? with
  | some f => pure f
  | none => broken .unfinished

/-- How an activity ends that begins now. -/
def conduct (interpret : Interpreter) (phase : Phase) : Act Ending := do
  let s ← engine interpret
  let s := (s.spawn (.time s.clock) phase).runFor [s.count] (← get).steps
  take s
  match s.endings.head? with
  | some e => pure e.ending
  | none => broken .unfinished

/-- Sweeps the store every some microseconds, for some microseconds. -/
def sweep (client : Http.Client) (interval : Nat) (lifespan : Option Int) : Act Unit := do
  let _ ← conduct (interpreter client) (.commence ⟨interval, lifespan, (← get).world.clock, .none⟩)

/-- Runs a stored flow and puts the record of its run into its history. -/
def runFlow (client : Http.Client) (id : String) : Act (Except StoreFault RunRecord) := do
  match ← conduct (interpreter client) (.load id .manual (interpreter client) .keep) with
  | .record r => pure (.ok r)
  | .refused fault => pure (.error fault)
  | _ => broken .unfinished

end Act

/-- A piece of a command as a whole: its end, its lines and the desk after it. -/
def Desk.perform (d : Desk) (act : Act Unit) : Exit × List String × Desk :=
  match (act.run.run { d with lines := [] }) with
  | (.ok (), d) => (.success, d.lines.reverse, { d with lines := [] })
  | (.error e, d) => (e, d.lines.reverse, { d with lines := [] })

/-- Closes the open store. -/
def Desk.reset (d : Desk) : Desk := { d with depot := d.depot.reset }

end Cadence
