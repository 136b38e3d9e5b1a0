/-
Tasks: programs that look at the clock, wait, send requests and report.

A task is the tree of what it will ask of its surroundings, given each answer.  It is finite, so
everything about it is defined by recursion on it, and what a task does can be told apart from how
it is interleaved with others.

* `Effect`, `Effect.Answer` — what can be asked, and the kind of answer;
* `Task` — a task, with `Task.bind` to do one after another.
-/
import Cadence.Calendar.Moment
import Cadence.Http.Cookie

namespace Cadence

open Calendar

/-- How grave a report is. -/
inductive Level where
  | warning | error
  deriving DecidableEq, Inhabited, Repr

/-- What a task asks of its surroundings. -/
inductive Effect where
  /-- What time is it? -/
  | now
  /-- Wait a number of microseconds. -/
  | wait (micros : Nat)
  /-- How does the other side behave on a request? The request is sent now. -/
  | exchange (request : Http.Request)
  /-- Report something to those who look after the program. -/
  | report (level : Level) (text : String)
  /-- A new id. -/
  | newId
  /-- Which cookies does the program have? -/
  | cookies
  /-- The cookies that the program has from now on. -/
  | keepCookies (jar : Http.Jar)

/-- The kind of answer to an effect. -/
def Effect.Answer : Effect → Type
  | .now => Instant
  | .wait _ => Unit
  | .exchange _ => Http.Reply
  | .report _ _ => Unit
  | .newId => String
  | .cookies => Http.Jar
  | .keepCookies _ => Unit

/-- A task that ends with a value. -/
inductive Task (α : Type) : Type where
  | done (value : α)
  | ask (effect : Effect) (next : effect.Answer → Task α)

namespace Task

variable {α β γ : Type}

/-- One task, and then another one that depends on its value. -/
def bind (t : Task α) (f : α → Task β) : Task β :=
  match t with
  | .done a => f a
  | .ask e next => .ask e fun x => (next x).bind f

instance : Monad Task where
  pure := .done
  bind := bind

theorem bind_done (t : Task α) : t.bind .done = t := by
  induction t with
  | done a => rfl
  | ask e next ih => simp only [bind, ih]

theorem bind_assoc (t : Task α) (f : α → Task β) (g : β → Task γ) :
    (t.bind f).bind g = t.bind fun a => (f a).bind g := by
  induction t with
  | done a => rfl
  | ask e next ih => simp only [bind, ih]

/-- The time. -/
def now : Task Instant := .ask .now .done

/-- Waits; no time at all is not waited for. -/
def wait (micros : Nat) : Task Unit :=
  if micros = 0 then .done () else .ask (.wait micros) .done

/-- Sends a request and learns how the other side will behave. -/
def exchange (r : Http.Request) : Task Http.Reply := .ask (.exchange r) .done

/-- Reports a text. -/
def report (level : Level) (text : String) : Task Unit := .ask (.report level text) .done

/-- A new id. -/
def newId : Task String := .ask .newId .done

/-- The cookies of the program. -/
def cookies : Task Http.Jar := .ask .cookies .done

/-- Keeps cookies for the whole program. -/
def keepCookies (jar : Http.Jar) : Task Unit := .ask (.keepCookies jar) .done

end Task

end Cadence
