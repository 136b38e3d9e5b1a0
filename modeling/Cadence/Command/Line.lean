/-
Command lines.

Options stand before, between or after the other arguments of a command, or before the name of a
group; a lone double hyphen ends them.  The value of an option follows it or is joined to it by an
equality sign, and the last value counts.

* `Command` — what a command line asks for;
* `Command.parse` — reads the arguments of a command line.
-/
import Cadence.Decimal.Reading

namespace Cadence

/-- What a command line asks for. -/
inductive Command where
  /-- Stores the flow that a file defines. -/
  | create (path : String)
  /-- Gives a stored flow the definition in a file. -/
  | revise (id path : String)
  /-- Lists the stored flows. -/
  | list
  /-- Describes a stored flow. -/
  | inspect (id : String)
  /-- Removes a flow and its history. -/
  | remove (id : String)
  /-- Switches a flow on or off. -/
  | switch (id : String) (enabled : Bool)
  /-- Runs a flow and shows its log. -/
  | run (id : String)
  /-- Shows the history of a flow, or its beginning. -/
  | history (id : String) (limit : Option Int)
  /-- Sweeps the store every some seconds, for some seconds. -/
  | start (interval lifespan : Option Float)
  /-- Tells whether a schedule is due. -/
  | check (schedule : String) (lastRun now : Option String)
  /-- Explains the command line. -/
  | help
  deriving Inhabited, Repr

/-- The options that arguments may hold: those with a value, those without, and the letters that
stand for some of the latter. -/
structure Options where
  valued : List String
  bare : List String
  letters : List (Char × String)
  deriving DecidableEq, Repr

/-- Arguments apart from each other. Values are listed with the last one first. -/
structure Arguments where
  switches : List String
  values : List (String × String)
  rest : List String
  deriving DecidableEq, Repr

namespace Arguments

/-- Arguments without options. -/
def plain (rest : List String) : Arguments := ⟨[], [], rest⟩

/-- Adds a switch. -/
def withSwitch (name : String) (a : Arguments) : Arguments :=
  { a with switches := name :: a.switches }

/-- Adds a value before those that are there. -/
def withValue (name value : String) (a : Arguments) : Arguments :=
  { a with values := a.values ++ [(name, value)] }

/-- Adds an argument in front. -/
def withArgument (arg : String) (a : Arguments) : Arguments := { a with rest := arg :: a.rest }

/-- Whether an argument is an option. -/
def isOption (arg : String) : Bool :=
  match arg.toList with
  | '-' :: _ :: _ => true
  | _ => false

/-- The name and the joined value of an option. -/
def split (arg : String) : String × Option String :=
  let (name, value) := Text.cutAt '=' arg.toList
  (String.ofList name, value.map String.ofList)

/-- The switches that letters after a hyphen stand for. -/
def lettered? (o : Options) (arg : String) : Option (List String) :=
  if Text.startsWith arg "--" then none
  else (arg.toList.drop 1).mapM fun c => o.letters.lookup c

/-- Tells options and other arguments apart. Unless they may be mixed, the options end at the first
other argument. -/
def read (o : Options) (mixed : Bool) : List String → Option Arguments
  | [] => some (plain [])
  | arg :: rest =>
    if arg == "--" then some (plain rest)
    else if isOption arg then
      let (name, joined) := split arg
      if o.valued.contains name then
        match joined, rest with
        | some v, rest => (read o mixed rest).map (withValue name v)
        | none, v :: rest => (read o mixed rest).map (withValue name v)
        | none, [] => none
      else if o.bare.contains name then
        if joined.isSome then none else (read o mixed rest).map (withSwitch name)
      else
        match lettered? o arg, read o mixed rest with
        | some names, some a => some (names.foldr withSwitch a)
        | _, _ => none
    else if mixed then (read o mixed rest).map (withArgument arg)
    else some (plain (arg :: rest))

/-- Whether an explanation is asked for. -/
def asksHelp (a : Arguments) : Bool := a.switches.contains "--help"

/-- An optional value that a reader accepts. -/
def value? {α : Type} (name : String) (read : String → Option α) (a : Arguments) :
    Option (Option α) :=
  match a.values.lookup name with
  | none => some none
  | some v => (read v).map some

end Arguments

namespace Command

/-- The options before the name of a group. -/
def outerOptions : Options := ⟨[], ["--verbose", "--help"], [('v', "--verbose")]⟩

/-- The options of a group, and of a command without values. -/
def innerOptions : Options := ⟨[], ["--help"], []⟩

/-- Reads the arguments of a command. -/
def leaf (valued : List String) (args : List String) (make : Arguments → Option Command) :
    Option Command := do
  let a ← Arguments.read { innerOptions with valued := valued } true args
  if a.asksHelp then some .help else make a

/-- A command with one argument. -/
def single (args : List String) (make : String → Command) : Option Command :=
  leaf [] args fun a =>
    match a.rest with
    | [x] => some (make x)
    | _ => none

/-- Reads an integer. -/
def integer? (s : String) : Option Int := (Decimal.integer? s).toOption

/-- The commands for flows. -/
def flowCommand (name : String) (args : List String) : Option Command :=
  match name with
  | "create" => single args .create
  | "update" =>
    leaf [] args fun a =>
      match a.rest with
      | [id, path] => some (.revise id path)
      | _ => none
  | "list" => leaf [] args fun a => if a.rest.isEmpty then some .list else none
  | "show" => single args .inspect
  | "delete" => single args .remove
  | "enable" => single args (.switch · true)
  | "disable" => single args (.switch · false)
  | "run" => single args .run
  | "logs" =>
    leaf ["--limit"] args fun a => do
      let limit ← a.value? "--limit" integer?
      match a.rest with
      | [id] => some (.history id limit)
      | _ => none
  | _ => none

/-- The commands for the scheduler. -/
def schedulerCommand (name : String) (args : List String) : Option Command :=
  match name with
  | "start" =>
    leaf ["--interval", "--lifespan"] args fun a => do
      let interval ← a.value? "--interval" Decimal.float?
      let lifespan ← a.value? "--lifespan" Decimal.float?
      if a.rest.isEmpty then some (.start interval lifespan) else none
  | _ => none

/-- The commands for schedules. -/
def cronCommand (name : String) (args : List String) : Option Command :=
  match name with
  | "check" =>
    leaf ["--last-run", "--now"] args fun a =>
      match a.rest with
      | [schedule] =>
        some (.check schedule (a.values.lookup "--last-run") (a.values.lookup "--now"))
      | _ => none
  | _ => none

/-- The commands of a group. -/
def group? (name : String) : Option (String → List String → Option Command) :=
  match name with
  | "flow" => some flowCommand
  | "scheduler" => some schedulerCommand
  | "cron" => some cronCommand
  | _ => none

/-- Reads the arguments of a command line; `none` for those that no command takes. -/
def parse (args : List String) : Option Command := do
  let outer ← Arguments.read outerOptions false args
  if outer.asksHelp then return .help
  match outer.rest with
  | [] => none
  | name :: args =>
    let group ← group? name
    let inner ← Arguments.read innerOptions false args
    if inner.asksHelp then return .help
    match inner.rest with
    | [] => none
    | name :: args => group name args

end Command

end Cadence
