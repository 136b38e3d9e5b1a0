/-
Requests, and what comes back.

Names of headers are compared without regard to letter case.  A response is bytes with a status and
headers; its body counts as JSON if it reads as JSON, whatever the headers say, and as text
otherwise.

* `Response.text`, `Response.value` — the body of a response;
* `Headers.merged` — headers by name, the values of a repeated name joined;
* `Reply` — how the other side behaves: it waits, and then answers or fails.
-/
import Cadence.Http.Url
import Cadence.Flow.Step
import Cadence.Json.Half

namespace Cadence.Http

open Cadence.Text

/-- Headers in the order in which they are sent. -/
abbrev Headers := List (String × String)

/-- A name in the form in which names are compared. -/
def lowerName (name : String) : String := String.ofList (name.toList.map Char.toLower)

namespace Headers

/-- The values under a name. -/
def values (name : String) (hs : Headers) : List String :=
  (hs.filter fun h => lowerName h.1 == name).map (·.2)

/-- The value under a name; several values are joined. -/
def find? (name : String) (hs : Headers) : Option String :=
  match hs.values name with
  | [] => none
  | vs => some (", ".intercalate vs)

/-- Whether a name occurs. -/
def has (name : String) (hs : Headers) : Bool := hs.any fun h => lowerName h.1 == name

/-- Headers without a name. -/
def without (name : String) (hs : Headers) : Headers := hs.filter fun h => lowerName h.1 != name

/-- Headers by name in lower case, the values of a repeated name joined at its first place. -/
def merged (hs : Headers) : List (String × String) :=
  (hs.map fun h => lowerName h.1).eraseDups.map fun n => (n, ", ".intercalate (hs.values n))

end Headers

/-- A request. -/
structure Request where
  method : Method
  url : Url
  headers : Headers
  body : String
  deriving DecidableEq, Inhabited, Repr

/-- A response. -/
structure Response where
  status : Int
  headers : Headers
  body : List UInt8
  deriving DecidableEq, Inhabited, Repr

/-- Why there is no response: the kind of the failure and, if there is any, its text. -/
structure Failure where
  kind : String
  text : String
  deriving DecidableEq, Inhabited, Repr

/-- Whether a failure is a timeout, which its kind tells. -/
def Failure.isTimeout (f : Failure) : Bool := "Timeout".toList.isSuffixOf f.kind.toList

/-- The wording of a failure: its text, or else its kind. -/
def Failure.message (f : Failure) : String := if f.text.isEmpty then f.kind else f.text

/-- A body lacks the mark that should tell the order of its bytes. -/
structure UnmarkedFault where
  encoding : Encoding
  deriving DecidableEq, Repr

/-- The wording of the fault. -/
def UnmarkedFault.message (f : UnmarkedFault) : String :=
  let name := match f.encoding with
    | .utf32Marked => "UTF-32"
    | _ => "UTF-16"
  s!"{name} stream does not start with BOM"

/-- How the other side behaves on a request: it waits a number of microseconds, then answers or
fails. -/
structure Reply where
  delay : Nat
  outcome : Except Failure Response

namespace Response

/-- A parameter of a header value; one that is only named has an empty value. -/
def parameter? (name : String) (value : String) : Option String :=
  (splitOn ';' value).findSome? fun part =>
    let (n, v) := cutAt '=' part.toList
    if lowerName (trim (String.ofList n)) == name then
      some (String.ofList (stripWhile (· == '"') (trim (String.ofList (v.getD []))).toList))
    else none

/-- The encoding of the body: what the content type says, if it is known, and UTF-8 otherwise. -/
def encoding (r : Response) : Encoding :=
  (((r.headers.find? "content-type").bind (parameter? "charset")).bind Encoding.ofName?).getD .utf8

/-- The body as text. The fault is that of an encoding whose mark is lacking. -/
def text (r : Response) : Except UnmarkedFault String :=
  if r.encoding.lacksMark r.body then .error ⟨r.encoding⟩ else .ok (r.encoding.decode r.body)

/-- What the body writes in JSON, with given characters for halves of surrogate pairs. -/
def json? (r : Response) (half : Nat → Char) : Option Json :=
  ((Encoding.ofJsonText r.body).decodeWith? half r.body).bind fun s =>
    (Json.readWith half s).toOption

/-- The body as a value: what it writes in JSON, or its text. The replacement character
stands for halves of surrogate pairs. -/
def value (r : Response) : Except UnmarkedFault Json :=
  match r.json? fun _ => '\ufffd' with
  | some v => .ok v
  | none => r.text.map .str

/-- Whether the status tells of success. -/
def isSuccess (r : Response) : Bool := 200 ≤ r.status && r.status < 300

end Response

end Cadence.Http
