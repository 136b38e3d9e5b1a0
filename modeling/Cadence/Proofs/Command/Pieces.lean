/-
The pieces of commands, and command lines.

* `Act.run_bind_ok`, `Act.run_bind_error` — a piece goes on after its first part, or ends with it;
* `Act.run_openStore`, `Act.run_request` — a store is found, and asked, and nothing is written;
* `Desk.perform_ok`, `Desk.perform_error`, `Desk.perform_told` — a piece as a whole;
* `Command.parse_group` — the first two arguments of a command line tell what takes the others;
* `Desk.shown`, `Desk.shown_of_parse` — how a command line ends, and what it writes.
-/
import Mathlib.Tactic.Common
import Cadence.Command.Perform

namespace Cadence

open Calendar

/-- How a fault of the store ends a command, and what is written about it. -/
def StoreFault.shown : StoreFault → Exit × List String
  | .problem p => (.failure, [p.message])
  | fault => (.broken (.store fault), [])

/-! ### Pieces of commands -/

namespace Act

variable {d d' : Desk} {s : Store} {α β : Type}

theorem run_bind_ok {act : Act α} {next : α → Act β} {a : α} (h : act.run.run d = (.ok a, d')) :
    (act >>= next).run.run d = (next a).run.run d' := by
  rw [ExceptT.run_bind, StateT.run_bind, h]
  rfl

theorem run_bind_error {act : Act α} {next : α → Act β} {e : Exit}
    (h : act.run.run d = (.error e, d')) :
    (act >>= next).run.run d = (.error e, d') := by
  rw [ExceptT.run_bind, StateT.run_bind, h]
  rfl

theorem run_get (next : Desk → Act α) (d : Desk) :
    (get >>= next).run.run d = (next d).run.run d := by
  have hget : (get : Act Desk).run.run d = (.ok d, d) := rfl
  exact run_bind_ok hget

/-- Lines are written one after the other. -/
theorem run_sayAll (lines : List String) (d : Desk) :
    (sayAll lines).run.run d = (.ok (), { d with lines := lines.reverse ++ d.lines }) := by
  induction lines generalizing d with
  | nil => rfl
  | cons line lines ih =>
    show ((sayAll lines).run.run { d with lines := line :: d.lines }) = _
    rw [ih, List.reverse_cons, List.append_assoc]
    rfl

theorem run_refuse (fault : StoreFault) (d : Desk) :
    (refuse fault : Act α).run.run d =
      (.error fault.shown.1, { d with lines := fault.shown.2.reverse ++ d.lines }) := by
  cases fault <;> rfl

/-- A store that is found is the open one from then on. -/
theorem run_openStore_ok {depot : Depot}
    (h : d.depot.obtain d.host d.servers none none = .ok depot) :
    openStore.run.run d = (.ok (), { d with depot := depot }) := by
  refine (run_get _ d).trans ?_
  rw [h]
  rfl

/-- A store that is open stays open. -/
theorem run_openStore (hs : d.depot.store? = some s) : openStore.run.run d = (.ok (), d) := by
  have hkeeps : d.depot.keeps none none = true := by
    rw [Depot.store?, Option.map_eq_some_iff] at hs
    obtain ⟨o, ho, _⟩ := hs
    rw [Depot.keeps, ho]
    rfl
  exact run_openStore_ok (if_pos hkeeps)

/-- What a request reports is of no concern to the store. -/
theorem store_warn (e : Engine) (texts : List String) : (e.warn texts).store = e.store := by
  induction texts generalizing e with
  | nil => rfl
  | cons text texts ih => exact ih (e.report .warning text)

/-- A request is answered by the open store, which becomes what the request makes of it, and
nothing is written. -/
theorem run_request (hs : d.depot.store? = some s) (op : Operation) :
    ∃ d', (request op).run.run d = (.ok (s.apply d.world.clock.toMoment op).1, d') ∧
      d'.lines = d.lines ∧
      d'.depot = d.depot.withStore (s.apply d.world.clock.toMoment op).2 := by
  have hopen : d.depot.store?.getD .remote = s := by rw [hs, Option.getD_some]
  let asked (s : Store) : Except StoreFault Answer × Engine :=
    (Engine.start d.world s (interpreter Settings.defaults.client)).ask op
  refine ⟨{ d with world := (asked s).2.world, depot := d.depot.withStore (asked s).2.store }, ?_,
    rfl, ?_⟩
  · show (Except.ok (asked (d.depot.store?.getD .remote)).1, _) = _
    rw [hopen]
    rfl
  · exact congrArg d.depot.withStore (store_warn _ _)

/-- The answer of the open store is handed on; a fault ends the command, and its message is
written. -/
theorem run_ask (hs : d.depot.store? = some s) (op : Operation) :
    ∃ d', d'.lines = d.lines ∧ d'.depot = d.depot.withStore (s.apply d.world.clock.toMoment op).2 ∧
      (∀ a, (s.apply d.world.clock.toMoment op).1 = .ok a → (ask op).run.run d = (.ok a, d')) ∧
      ∀ fault, (s.apply d.world.clock.toMoment op).1 = .error fault →
        (ask op).run.run d = (.error fault.shown.1,
          { d' with lines := fault.shown.2.reverse ++ d'.lines }) := by
  obtain ⟨d', hrequest, hlines, hdepot⟩ := run_request hs op
  refine ⟨d', hlines, hdepot, fun a ha => ?_, fun fault hfault => ?_⟩
  · rw [ha] at hrequest
    exact run_bind_ok hrequest
  · rw [hfault] at hrequest
    exact (run_bind_ok hrequest).trans (run_refuse fault d')

end Act

namespace Depot

end Depot

namespace Desk

variable {d d' : Desk} {act : Act Unit}

theorem perform_ok (h : act.run.run { d with lines := [] } = (.ok (), d')) :
    d.perform act = (.success, d'.lines.reverse, { d' with lines := [] }) := by
  rw [perform, h]

theorem perform_error {e : Exit} (h : act.run.run { d with lines := [] } = (.error e, d')) :
    d.perform act = (e, d'.lines.reverse, { d' with lines := [] }) := by
  rw [perform, h]

/-- A piece that ends with an error, after it told why. -/
theorem perform_told {e : Exit} {lines : List String} (hempty : d'.lines = [])
    (h : act.run.run { d with lines := [] } =
      (.error e, { d' with lines := lines.reverse ++ d'.lines })) :
    d.perform act = (e, lines, { d' with lines := [] }) := by
  rw [perform_error h, hempty, List.append_nil, List.reverse_reverse]

end Desk

/-! ### Command lines -/

namespace Arguments

theorem beq_dashes {arg : String} (h : isOption arg = false) : (arg == "--") = false := by
  rw [beq_eq_false_iff_ne]
  rintro rfl
  cases h

/-- Where options and other arguments are not mixed, what follows the first argument is left
as it is. -/
theorem read_argument {o : Options} {arg : String} (h : isOption arg = false) (rest : List String) :
    read o false (arg :: rest) = some (plain (arg :: rest)) := by
  rw [read, beq_dashes h, h]
  rfl

theorem read_mixed {o : Options} {arg : String} (h : isOption arg = false) (rest : List String) :
    read o true (arg :: rest) = (read o true rest).map (withArgument arg) := by
  rw [read, beq_dashes h, h]
  rfl

/-- The value of an option follows it. -/
theorem read_value {o : Options} {mixed : Bool} {name : String}
    (hend : (name == "--") = false) (hoption : isOption name = true)
    (hsplit : split name = (name, none)) (hvalued : o.valued.contains name = true)
    (value : String) (rest : List String) :
    read o mixed (name :: value :: rest) = (read o mixed rest).map (withValue name value) := by
  rw [read, hend, hoption, hsplit]
  simp only [hvalued]
  rfl

end Arguments

namespace Command

open Arguments

/-- The first two arguments tell what takes the others. -/
theorem parse_group {group name : String} {commands : String → List String → Option Command}
    (hgroup : isOption group = false) (hname : isOption name = false)
    (h : group? group = some commands) (args : List String) :
    parse (group :: name :: args) = commands name args := by
  have houter : Arguments.read outerOptions false (group :: name :: args) =
      some (plain (group :: name :: args)) :=
    read_argument hgroup _
  have hinner : Arguments.read innerOptions false (name :: args) =
      some (plain (name :: args)) := read_argument hname _
  have hrest : (plain (group :: name :: args)).rest = group :: name :: args := rfl
  simp only [parse, houter, hrest, Option.bind_eq_bind, Option.bind_some, h, hinner]
  rfl

end Command

namespace Desk

variable {d : Desk} {args : List String} {c : Command}

/-- How a command line ends, and what it writes. -/
def shown (d : Desk) (args : List String) : Exit × List String :=
  ((d.answer args).1, (d.answer args).2.1)

/-- What is written, without instructions to a terminal. -/
def plain (x : Exit × List String) : Exit × List String :=
  (x.1, x.2.map fun line => String.ofList (withoutStyle line.toList))

/-- A command line ends as its command does, and writes what that writes. -/
theorem shown_of_parse (h : Command.parse args = some c) :
    d.shown args = plain ((d.perform c.act).1, (d.perform c.act).2.1) := by
  rw [shown, answer, h]
  rfl

end Desk

end Cadence
