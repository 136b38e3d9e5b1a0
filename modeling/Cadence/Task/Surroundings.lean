/-
What surrounds tasks: a clock, the other side of all requests, and the reports so far.

Time passes only where a task waits.  How the other side behaves may depend on all requests that it
has seen.

* `Surroundings.perform` — the answer to one effect;
* `Task.run` — a task from beginning to end, alone.
-/
import Cadence.Task.Basic

namespace Cadence

open Calendar

/-- A request and when it was sent. -/
structure Sent where
  time : Instant
  request : Http.Request
  deriving Inhabited, Repr

/-- A report and when it was made. -/
structure Report where
  time : Instant
  level : Level
  text : String
  deriving DecidableEq, Inhabited, Repr

/-- How the other side behaves on a request, given the earlier ones, the latest first. -/
abbrev Server := List Http.Request → Http.Request → Http.Reply

/-- The surroundings of tasks. Requests and reports are listed with the latest first. -/
structure Surroundings where
  clock : Instant
  server : Server
  /-- The ids to give out, by number. -/
  ids : Nat → String
  issued : Nat
  sent : List Sent
  reports : List Report
  /-- The cookies that all runs share. -/
  cookies : Http.Jar

namespace Surroundings

/-- Surroundings at the beginning. -/
def start (clock : Instant) (server : Server) (ids : Nat → String) : Surroundings :=
  ⟨clock, server, ids, 0, [], [], []⟩

/-- Adds a report. -/
def report (s : Surroundings) (level : Level) (text : String) : Surroundings :=
  { s with reports := ⟨s.clock, level, text⟩ :: s.reports }

/-- Lets time pass. -/
def pass (s : Surroundings) (micros : Nat) : Surroundings :=
  { s with clock := s.clock.after micros }

/-- The answer to an effect, and the surroundings after it. -/
def perform (s : Surroundings) : (e : Effect) → e.Answer × Surroundings
  | .now => (s.clock, s)
  | .wait micros => ((), s.pass micros)
  | .exchange r => (s.server (s.sent.map (·.request)) r, { s with sent := ⟨s.clock, r⟩ :: s.sent })
  | .report level text => ((), s.report level text)
  | .newId => (s.ids s.issued, { s with issued := s.issued + 1 })
  | .cookies => (s.cookies, s)
  | .keepCookies jar => ((), { s with cookies := jar })

end Surroundings

/-- Runs a task from beginning to end. -/
def Task.run {α : Type} (t : Task α) (s : Surroundings) : α × Surroundings :=
  match t with
  | .done a => (a, s)
  | .ask e next => (next (s.perform e).1).run (s.perform e).2

theorem Task.run_bind {α β : Type} (t : Task α) (f : α → Task β) (s : Surroundings) :
    (t.bind f).run s = (f (t.run s).1).run (t.run s).2 := by
  induction t generalizing s with
  | done a => rfl
  | ask e next ih => exact ih _ _

end Cadence
