/-
A store of any kind.

* `Store.apply` — the answer to a request, and the store after it.  A refused request changes
  nothing.
-/
import Cadence.Store.Memory
import Cadence.Store.Table

namespace Cadence

open Calendar

/-- A store. -/
inductive Store where
  | memory (memory : Memory)
  | table (table : Table)
  /-- A store on a server that cannot be reached. -/
  | remote
  deriving Inhabited

namespace Store

/-- The answer to a request, and the store after it. -/
def apply (s : Store) (now : Moment) (op : Operation) : Except StoreFault Answer × Store :=
  match s with
  | .memory m =>
    match m.apply now op with
    | .ok (a, m) => (.ok a, .memory m)
    | .error e => (.error e, s)
  | .table t => ((t.apply now op).1, .table (t.apply now op).2)
  | .remote => (.error (.outage "the server cannot be reached"), s)

/-- What a request gives cause to report. -/
def report? (s : Store) (op : Operation) : Option String :=
  match s with
  | .memory m => m.report? op
  | .table _ | .remote => none

end Store

end Cadence
