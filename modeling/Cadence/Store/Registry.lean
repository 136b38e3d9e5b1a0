/-
Stores that are asked for again and again.

Whenever a store is asked for, a registry gives out the open one or opens one.  The stores
that it opens are numbered in their order, so that two answers with one number give out the
same store.  A call that fails leaves everything as it was.

* `Registry.Call` — what is asked for, and what is around the program at that time;
* `Registry.call` — the number of the store that is given out, and the registry after it;
* `Registry.request` — a request to the open store.
-/
import Cadence.Store.Depot

namespace Cadence

/-- The stores of a program, and how many of them it has opened. -/
structure Registry where
  depot : Depot
  /-- The number of the store that was opened last; no store has been opened at zero. -/
  opened : Nat
  deriving Inhabited

namespace Registry

/-- No stores. -/
def empty (codec : Codec) : Registry := ⟨.empty codec, 0⟩

/-- A call for a store. -/
structure Call where
  host : Host
  /-- Whether stores on servers are available. -/
  servers : Bool
  address : Option String
  settings : Option Settings

/-- The number of the store that is given out at a call, and the registry after it. -/
def call (r : Registry) (c : Call) : Except DepotFault Nat × Registry :=
  match r.depot.obtain c.host c.servers c.address c.settings with
  | .error fault => (.error fault, r)
  | .ok depot =>
    let number := if r.depot.keeps c.address c.settings then r.opened else r.opened + 1
    (.ok number, ⟨depot, number⟩)

/-- The registry after a request to the open store, if there is one. -/
def request (r : Registry) (now : Calendar.Moment) (op : Operation) : Registry :=
  match r.depot.store? with
  | none => r
  | some s => { r with depot := r.depot.withStore (s.apply now op).2 }

end Registry

end Cadence
