/-
Addresses of resources.

An address is read into its components and brought into one form: scheme and host in lower
case, a `portNumber` that is the scheme's own left out, dot segments of the path resolved,
and every character that may not stand in its component written as percent signs and bytes.
Percent signs that already write a byte are kept.

* `Url.parse` — the address that a text writes;
* `Url.text` — the text of an address;
* `Url.join` — a reference seen from an address.
-/
import Cadence.Decimal.Reading
import Cadence.Http.HostName

namespace Cadence.Http

open Cadence.Text

/-- An address by its components. -/
structure Url where
  scheme : String
  userInfo : String
  host : String
  portNumber : Option Int
  path : String
  query : Option String
  fragment : Option String
  deriving DecidableEq, Inhabited, Repr

/-- Why a text is no address. -/
inductive UrlFault where
  | tooLong
  | unprintable (c : Char) (place : Nat)
  | badNumber (text : String)
  | host (fault : HostFault)
  | relativePath
  | doubleSlash
  | leadingColon
  deriving DecidableEq, Repr

/-- The wording of a fault. -/
def UrlFault.message : UrlFault → String
  | .tooLong => "URL too long"
  | .unprintable c i =>
    s!"Invalid non-printable ASCII character in URL, {quoted (String.ofList [c])} at position {i}."
  | .badNumber text => s!"Invalid port: {quoted text}"
  | .host f => f.message
  | .relativePath => "For absolute URLs, path must be empty or begin with '/'"
  | .doubleSlash => "Relative URLs cannot have a path starting with '//'"
  | .leadingColon => "Relative URLs cannot have a path starting with ':'"

/-- Printable ASCII without the given characters. -/
def printableBut (excluded : String) (c : Char) : Bool :=
  ' ' < c && c < '\x7f' && !excluded.toList.contains c

/-- The characters that stand for themselves in a fragment. -/
def inFragment : Char → Bool := printableBut "\"<>\x60"

/-- The characters that stand for themselves in a query. -/
def inQuery : Char → Bool := printableBut "\"#<>"

/-- The characters that stand for themselves in a path. -/
def inPath : Char → Bool := printableBut "\"#<>?\x60\x7b\x7d"

/-- The characters that stand for themselves before the host. -/
def inUserInfo : Char → Bool := printableBut "\"#<>?\x60\x7b\x7d/;=@[\\]^|"

/-- The scheme of an address, and what follows its colon. -/
def takeScheme (cs : List Char) : List Char × List Char :=
  match cutAt ':' cs with
  | ([], some rest) => ([], rest)
  | (c :: more, some rest) =>
    if isAlphanumeric c && !isAsciiDigit c &&
        more.all (fun d => isAlphanumeric d || d == '+' || d == '.' || d == '-') then
      (c :: more, rest)
    else ([], cs)
  | _ => ([], cs)

/-- The authority of an address, and the path and all that follows. -/
def takeAuthority : List Char → List Char × List Char
  | '/' :: '/' :: rest =>
    let ends : Char → Bool := fun c => c == '/' || c == '?' || c == '#'
    (rest.takeWhile (!ends ·), rest.dropWhile (!ends ·))
  | cs => ([], cs)

/-- Where the host of an authority ends: a host between brackets reaches to the last bracket. -/
def takeHost (cs : List Char) : List Char × List Char :=
  let plain :=
    (cs.takeWhile fun c => c != ':' && c != '@', cs.dropWhile fun c => c != ':' && c != '@')
  match cs with
  | '[' :: _ =>
    match cs.reverse.dropWhile (· != ']') with
    | [] => plain
    | inside => (inside.reverse, cs.drop inside.length)
  | _ => plain

/-- The `portNumber` that a scheme has for itself. -/
def ownNumber? (scheme : String) : Option Int :=
  [("ftp", 21), ("http", 80), ("https", 443), ("ws", 80), ("wss", 443)].lookup scheme

/-- The `portNumber` of an address, left out if it is the scheme's own. -/
def readNumber (scheme : String) (cs : List Char) : Except UrlFault (Option Int) :=
  let cs := match cs with
    | ':' :: rest => rest
    | cs => cs
  if cs.isEmpty then .ok none
  else
    match Decimal.integer? (String.ofList cs) with
    | .error _ => .error (.badNumber (String.ofList cs))
    | .ok n => .ok (if ownNumber? scheme == some n then none else some n)

/-- Resolves the dot segments of a row of segments. The first segment of an absolute path is the
empty one before the slash; nothing leads above it. -/
def resolveDots (done : List (List Char)) : List (List Char) → List (List Char)
  | [] => done
  | ['.'] :: rest => resolveDots done rest
  | ['.', '.'] :: rest => resolveDots (if done == [[]] then done else done.dropLast) rest
  | segment :: rest => resolveDots (done ++ [segment]) rest

/-- A path without dot segments. -/
def normalPath (cs : List Char) : List Char :=
  let segments := splitChars '/' cs
  if segments.contains ['.'] || segments.contains ['.', '.'] then
    List.intercalate ['/'] (resolveDots [] segments)
  else cs

/-- What a path may not be: without a slash after an authority, or like an authority or a scheme
where there is neither. -/
def pathFault? (hasScheme hasAuthority : Bool) (path : List Char) : Option UrlFault :=
  if hasAuthority then
    if path.isEmpty || path.head? == some '/' then none else some .relativePath
  else if hasScheme then none
  else if ['/', '/'].isPrefixOf path then some .doubleSlash
  else if path.head? == some ':' then some .leadingColon
  else none

/-- The longest text that is read as an address. -/
def maxUrlLength : Nat := 65536

/-- The address that a text writes. -/
def Url.parse (s : String) : Except UrlFault Url :=
  let cs := s.toList
  match cs.findIdx? fun c => c < ' ' || c == '\x7f' with
  | some i => .error (if maxUrlLength < cs.length then .tooLong else .unprintable (cs.getD i ' ') i)
  | none =>
    if maxUrlLength < cs.length then .error .tooLong
    else do
      let (scheme, rest) := takeScheme cs
      let (authority, rest) := takeAuthority rest
      let (rest, fragment) := cutAt '#' rest
      let (path, query) := cutAt '?' rest
      let (userInfo, authority) := match cutAt '@' authority with
        | (userInfo, some rest) => (userInfo, rest)
        | _ => ([], authority)
      let (host, number) := takeHost authority
      let scheme := String.ofList (scheme.map Char.toLower)
      let userInfo := encodeWith inUserInfo userInfo
      let host ← (hostName host).mapError .host
      let number ← readNumber scheme number
      let hasScheme := !scheme.isEmpty
      let hasAuthority := !userInfo.isEmpty || !host.isEmpty || number.isSome
      match pathFault? hasScheme hasAuthority path with
      | some fault => throw fault
      | none =>
        let path := if hasScheme || hasAuthority then normalPath path else path
        pure ⟨scheme, userInfo, host, number, encodeWith inPath path,
          query.map (encodeWith inQuery), fragment.map (encodeWith inFragment)⟩

namespace Url

/-- Host and `portNumber` of an address. -/
def place (u : Url) : String :=
  let host := if u.host.toList.contains ':' then s!"[{u.host}]" else u.host
  match u.portNumber with
  | none => host
  | some n => s!"{host}:{n}"

/-- User, host and `portNumber` of an address. -/
def authority (u : Url) : String :=
  if u.userInfo.isEmpty then u.place else s!"{u.userInfo}@{u.place}"

/-- The text of an address. -/
def text (u : Url) : String :=
  (if u.scheme.isEmpty then "" else u.scheme ++ ":") ++
    (if u.authority.isEmpty then "" else "//" ++ u.authority) ++ u.path ++
    ((u.query.map ("?" ++ ·)).getD "") ++ ((u.fragment.map ("#" ++ ·)).getD "")

/-- Whether an address names scheme and host. -/
def isAbsolute (u : Url) : Bool := !u.scheme.isEmpty && !u.host.isEmpty

/-- The address at the root of nowhere that a relative one stands for. -/
def rooted (u : Url) : Url :=
  if u.isAbsolute then u
  else ⟨"", "", "", none, String.ofList ('/' :: u.path.toList.dropWhile (· == '/')), u.query, none⟩

/-- Whether two addresses have scheme, host and `portNumber` in common. -/
def sameOrigin (u v : Url) : Bool :=
  u.scheme == v.scheme && u.host == v.host &&
    u.portNumber.orElse (fun _ => ownNumber? u.scheme) ==
      v.portNumber.orElse (fun _ => ownNumber? v.scheme)

/-- Whether the second address is the secure form of the first one. -/
def isSecured (u v : Url) : Bool :=
  u.scheme == "http" && v.scheme == "https" && u.host == v.host && u.portNumber.isNone &&
    v.portNumber.isNone

/-- Takes the segments of a path from a base, whose last segment counts only if it is empty. -/
def joinSegments (base path : List Char) : List (List Char) :=
  let baseSegments := splitChars '/' base
  let baseSegments := if baseSegments.getLast? == some [] then baseSegments
    else baseSegments.dropLast
  if path.head? == some '/' then splitChars '/' path
  else
    match baseSegments ++ splitChars '/' path with
    | [] => []
    | first :: rest => first :: (rest.dropLast.filter (!·.isEmpty) ++ rest.getLast?.toList)

/-- Walks through segments; two dots lead one up. -/
def walk (done : List (List Char)) : List (List Char) → List (List Char)
  | [] => done
  | ['.'] :: rest => walk done rest
  | ['.', '.'] :: rest => walk done.dropLast rest
  | segment :: rest => walk (done ++ [segment]) rest

/-- A relative path seen from a base. -/
def joinPath (base path : List Char) : List Char :=
  let segments := joinSegments base path
  let walked := walk [] segments
  let walked := match segments.getLast? with
    | some ['.'] | some ['.', '.'] => walked ++ [[]]
    | _ => walked
  match List.intercalate ['/'] walked with
  | [] => ['/']
  | '/' :: cs => '/' :: cs
  | cs => '/' :: cs

/-- A component that says nothing when it is empty. -/
def unlessEmpty (s : Option String) : Option String := s.filter (!·.isEmpty)

/-- A reference seen from an address. -/
def join (base reference : Url) : Url :=
  if reference.text.isEmpty then base
  else if !reference.scheme.isEmpty && reference.scheme != base.scheme then reference
  else if !reference.authority.isEmpty then
    { reference with
      scheme := base.scheme, query := unlessEmpty reference.query
      fragment := unlessEmpty reference.fragment }
  else if reference.path.isEmpty then
    { base with
      query := (unlessEmpty reference.query).orElse fun _ => unlessEmpty base.query
      fragment := unlessEmpty reference.fragment }
  else
    { base with
      path := String.ofList (normalPath (joinPath base.path.toList reference.path.toList))
      query := unlessEmpty reference.query
      fragment := unlessEmpty reference.fragment }

end Url

end Cadence.Http
