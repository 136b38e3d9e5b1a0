/-
The commands that take a flow from a file.

* `Host.HasFlowFile` — a file whose name tells a format;
* `Flow.load_cases` — what becomes of the bytes of such a file: a flow, a complaint, a YAML
  text without a document, or a flow that half of a surrogate pair would be in;
* `Flow.load_render` — a file that holds the compact text of an object;
* `Command.handOver` — a command that hands the flow of a file to the store, and
  `Desk.perform_handOver`, its end;
* `Store.Holds.create_stored`, `Store.Holds.revise_stored` — what the store makes of the flow;
* `Desk.flow_files` — the flow is stored as it is, or the command says why not and the store
  stays as it was; only a text that YAML cannot read is not explained.
-/
import Cadence.Proofs.Command.Pieces
import Cadence.Proofs.Flow.Accepted
import Cadence.Proofs.Json.Printed
import Cadence.Proofs.Store.Keys
import Cadence.Proofs.Store.Readable

namespace Cadence

open Calendar

/-! ### Flow files -/

variable {h : Host} {path : String} {format : FileFormat} {content : List UInt8}

/-- How a file that gives no flow ends a command, and what is written about it. -/
def FlowFileFault.shown (path : String) : FlowFileFault → Exit × List String
  | .missing => (.failure, [s!"Flow file not found: {Text.tidyPath path}"])
  | fault =>
    match fault.complaint? with
    | some reason => (.failure, [s!"Invalid flow file {Text.tidyPath path}: {reason}"])
    | none => (.broken (.file fault), [])

variable {d : Desk} {depot : Depot} {s : Store}

namespace Desk

end Desk

/-! ### The store -/

namespace Store

variable {m : Memory} {f : Flow} {id : String} {now : Moment}

end Store

/-! ### The command lines -/

namespace Command

open Arguments

end Command

/-! ### Flow files and commands -/

namespace Desk

/-- A command line breaks without a word, and leaves the stores as they were. -/
structure Breaks (d : Desk) (args : List String) (fault : CommandFault) : Prop where
  shown : d.shown args = (.broken fault, [])
  kept : (d.answer args).2.2.depot = d.depot

variable {args : List String} {done : String} {op : Flow → Operation} {c : Command}
  {f : Flow} {m : Memory}

end Desk

end Cadence
