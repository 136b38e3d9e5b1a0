/-
Sending requests.

A request is sent, redirects are followed where the client does so, and the whole may be bounded by
a time limit.  Every hop waits for its reply at most as long as the client's patience.

* `Request.build` — a request from what its author gives, or what is wrong with it;
* `redirect?` — the request to which a response leads;
* `send` — the task of sending a request until its last response.
-/
import Cadence.Task.Basic
import Cadence.Text.Base64

namespace Cadence.Http

open Cadence.Text

/-- How requests are sent. -/
structure Client where
  follows : Bool
  /-- How many microseconds a reply is waited for. -/
  patience : Nat
  /-- Whether the cookies are those of the program and not of one run. -/
  shares : Bool
  deriving DecidableEq, Inhabited, Repr

/-- Why a request has no response. -/
inductive SendFault where
  | url (fault : UrlFault)
  /-- The address has no scheme, so that no cookies can be kept for it. -/
  | noScheme (address : String)
  /-- A header holds characters outside ASCII, the first of them at a place. -/
  | notAscii (characters : List Char) (place : Nat)
  | failed (failure : Failure)
  /-- The time limit has passed. -/
  | overdue
  deriving DecidableEq, Repr

/-- The wording of a fault. -/
def SendFault.message : SendFault → String
  | .url f => f.message
  | .noScheme address => s!"unknown url type: {quoted address}"
  | .notAscii cs i =>
    let reason := "ordinal not in range(128)"
    match cs with
    | [c] =>
      s!"'ascii' codec can't encode character '{String.ofList (escapeCode c)}' " ++
        s!"in position {i}: {reason}"
    | _ => s!"'ascii' codec can't encode characters in position {i}-{i + cs.length - 1}: {reason}"
  | .failed f => f.message
  | .overdue => "TimeoutError"

/-- Whether a fault is a timeout of any kind. -/
def SendFault.isTimeout : SendFault → Bool
  | .failed f => f.isTimeout
  | .overdue => true
  | _ => false

/-- The first run of characters outside ASCII. -/
def asciiFault? (s : String) : Option SendFault :=
  let cs := s.toList
  (cs.findIdx? fun c => 0x80 ≤ c.toNat).map fun i =>
    .notAscii ((cs.drop i).takeWhile fun c => 0x80 ≤ c.toNat) i

/-- The first fault of headers. -/
def headersFault? (hs : Headers) : Option SendFault :=
  hs.findSome? fun (n, v) => (asciiFault? n).orElse fun _ => asciiFault? v

/-- Whether requests of a method tell the length of their body even if it is empty. -/
def tellsLength : Method → Bool
  | .post | .put | .patch => true
  | _ => false

/-- Adds a header unless there is one of its name. -/
def Headers.orAdd (hs : Headers) (name value : String) : Headers :=
  if hs.has name then hs else hs ++ [(name, value)]

/-- The headers of a request with what its body calls for. -/
def completeHeaders (method : Method) (hs : Headers) (body : String) : Headers :=
  let hs := if body.isEmpty then hs else hs.orAdd "content-length" (toString body.utf8ByteSize)
  if tellsLength method && !hs.has "content-length" && !hs.has "transfer-encoding" then
    ("content-length", "0") :: hs
  else hs

/-- A request from what its author gives. -/
def Request.build (method : Method) (url : String) (headers extra : Headers) (body : String) :
    Except SendFault Request :=
  match Url.parse url with
  | .error f => .error (.url f)
  | .ok u =>
    match headersFault? headers with
    | some f => .error f
    | none =>
      let hs := completeHeaders method headers body
      .ok ⟨method, u.rooted, extra.foldl (fun hs h => hs.orAdd h.1 h.2) hs, body⟩

/-- The bytes of a text in which some are written after percent signs. -/
def percentDecode : List Char → List UInt8
  | [] => []
  | c :: rest =>
    match c, rest with
    | '%', a :: b :: _ =>
      match hexNumber? 2 [a, b] with
      | some n => n.toUInt8 :: (percentDecode rest).drop 2
      | none => utf8Bytes (String.ofList [c]) ++ percentDecode rest
    | _, _ => utf8Bytes (String.ofList [c]) ++ percentDecode rest

/-- A request that tells name and password of its address, if there are any, in place of
what it told before. -/
def Request.withCredentials (r : Request) : Request :=
  match cutAt ':' r.url.userInfo.toList with
  | ([], none) | ([], some []) => r
  | (name, password) =>
    let written := Encoding.utf8.decode (percentDecode name) ++ ":" ++
      Encoding.utf8.decode (percentDecode (password.getD []))
    let value := s!"Basic {base64 (utf8Bytes written)}"
    { r with headers := r.headers.without "authorization" ++ [("Authorization", value)] }

/-- A request with the cookies for its address, unless it carries some already. -/
def Request.withCookies (r : Request) (jar : Jar) : Request :=
  match jar.headerFor? r.url with
  | some value => { r with headers := r.headers.orAdd "cookie" value }
  | none => r

/-- The method after a redirect. -/
def redirectMethod (status : Int) (m : Method) : Method :=
  if status = 303 || status = 302 then .get
  else if status = 301 && m = .post then .get
  else m

/-- The address to which a response leads. One with a scheme but no host is on the same host. -/
def redirectUrl (u : Url) (location : String) : Except SendFault Url :=
  match Url.parse location with
  | .error f =>
    .error (.failed ⟨"RemoteProtocolError",
      s!"Invalid URL in location header: {f.message}."⟩)
  | .ok v => do
    let v := if !v.scheme.isEmpty && v.host.isEmpty then { v with host := u.host } else v
    match pathFault? (!v.scheme.isEmpty) (!v.host.isEmpty) v.path.toList with
    | some fault => throw (.url fault)
    | none =>
      let v := if v.isAbsolute then v else u.join v
      if v.fragment.all (·.isEmpty) then
        pure { v with fragment := (u.fragment.filter (!·.isEmpty)).orElse fun _ => v.fragment }
      else pure v

/-- The headers after a redirect: credentials stay with the host, a length with the body, and
cookies are chosen anew. -/
def redirectHeaders (r : Request) (u : Url) (m : Method) : Headers :=
  let hs := if r.url.sameOrigin u || r.url.isSecured u then r.headers
    else r.headers.without "authorization"
  let hs := if m != r.method && m = .get
    then (hs.without "content-length").without "transfer-encoding" else hs
  hs.without "cookie"

/-- The statuses of redirects. -/
def isRedirectStatus (status : Int) : Bool := [301, 302, 303, 307, 308].contains status

/-- The request to which a response leads, if it is a redirect. -/
def redirect? (r : Request) (response : Response) : Option (Except SendFault Request) :=
  if isRedirectStatus response.status then
    (response.headers.find? "location").map fun location =>
      (redirectUrl r.url location).map fun u =>
        let m := redirectMethod response.status r.method
        ⟨m, u, redirectHeaders r u m, if m != r.method && m = .get then "" else r.body⟩
  else none

/-- How many requests may be sent for one. -/
def maxHops : Nat := 21

/-- The failure of a request that leads from redirect to redirect. -/
def tooManyRedirects : Failure := ⟨"TooManyRedirects", "Exceeded maximum allowed redirects."⟩

/-- One hop: sends a request and waits for its reply, at most `patience` and within what is left of
a time limit. The value is the response and what is left of the limit then. -/
def hop (patience : Nat) (left : Option Nat) (r : Request) :
    Task (Except SendFault (Response × Option Nat)) := do
  let reply ← Task.exchange r
  let span := min reply.delay patience
  match left with
  | some l =>
    if l ≤ span then
      Task.wait l
      return .error .overdue
  | none => pure ()
  Task.wait span
  if patience < reply.delay then return .error (.failed ⟨"ReadTimeout", ""⟩)
  else
    match reply.outcome with
    | .error f => return .error (.failed f)
    | .ok response => return .ok (response, left.map (· - span))

/-- The cookies that a client sends, given those of the run. -/
def Client.cookies (client : Client) (own : Jar) : Task Jar :=
  if client.shares then Task.cookies else pure own

/-- Keeps the cookies of a response, given those of the run. -/
def Client.keep (client : Client) (own : Jar) (u : Url) (response : Response) : Task Jar := do
  let jar := (← client.cookies own).keep (← Task.now) u response.headers
  if client.shares then Task.keepCookies jar
  return jar

/-- Sends a request, and those to which it leads, at most `hops` in all. The cookies of the
responses are kept. -/
def sendHops (client : Client) :
    Nat → Option Nat → Jar → Request → Task (Except SendFault Response × Jar)
  | 0, _, jar, _ => pure (.error (.failed tooManyRedirects), jar)
  | hops + 1, left, own, r => do
    let jar ← client.cookies own
    let homeless := r.url.scheme.isEmpty
    if homeless && !jar.isBare then return (.error (.noScheme r.url.text), jar)
    match ← hop client.patience left (r.withCookies jar) with
    | .error f => return (.error f, jar)
    | .ok (response, left) =>
      if homeless then return (.error (.noScheme r.url.text), jar)
      let jar ← client.keep jar r.url response
      match redirect? r response with
      | none => return (.ok response, jar)
      | some (.error f) => return (.error f, jar)
      | some (.ok next) =>
        if client.follows then sendHops client hops left jar next
        else return (.ok response, jar)

/-- Sends a request. A time limit of its own takes the place of the client's patience and bounds all
hops together. -/
def send (client : Client) (limit : Option Nat) (jar : Jar) (r : Request) :
    Task (Except SendFault Response × Jar) :=
  sendHops { client with patience := limit.getD client.patience } maxHops limit jar
    r.withCredentials

end Cadence.Http
