/-
Cookies.

A response may ask to be sent values along with later requests to the same place.  A cookie goes to
the domain that set it or that it names, with all its hosts, and to the paths below its own.

* `Jar.keep` — the cookies after a response;
* `Jar.headerFor?` — what a request carries.
-/
import Cadence.Calendar.Moment
import Cadence.Http.Message

namespace Cadence.Http

open Cadence.Text

/-- A cookie. -/
structure Cookie where
  name : String
  value : Option String
  /-- The domain that the cookie goes to, with a dot in front if the cookie names it. -/
  domain : String
  path : String
  secure : Bool
  deriving DecidableEq, Inhabited, Repr

/-- The cookies kept, by domain and then by path, in the order in which they came. -/
abbrev Jar := List (String × List (String × List Cookie))

/-- The directory of a path, with or without the stroke at its end. -/
def directory (closed : Bool) (path : String) : String :=
  match (path.toList.reverse.dropWhile (· != '/')).drop (if closed then 0 else 1) with
  | [] => "/"
  | cs => String.ofList cs.reverse

/-- Name and value on the two sides of an equals sign, without blanks around them. -/
def assignment (part : String) : String × Option String :=
  let (n, v) := cutAt '=' part.toList
  (trim (String.ofList n), v.map fun v => trim (String.ofList v))

/-- A text without quotes around it. -/
def unquoted (s : String) : String :=
  let strip (cs : List Char) := match cs with
    | '"' :: rest => rest
    | _ => cs
  String.ofList (strip (strip s.toList).reverse).reverse

/-- The characters that stand for themselves in the path of a cookie. -/
def inCookiePath (c : Char) : Bool := isAlphanumeric c || "_.-~%/;:@&=+$,!*'()".toList.contains c

/-- Writes the bytes after percent signs with capital letters. -/
def capitalBytes : List Char → List Char
  | '%' :: a :: b :: rest =>
    if isHexDigit a && isHexDigit b then '%' :: a.toUpper :: b.toUpper :: capitalBytes rest
    else '%' :: capitalBytes (a :: b :: rest)
  | c :: rest => c :: capitalBytes rest
  | [] => []
termination_by cs => cs.length

/-- The one form of a path for cookies. -/
def cookiePathForm (path : String) : String :=
  String.ofList (capitalBytes (percentEncode inCookiePath path.toList))

/-- The path that a request shows to cookies. -/
def cookiePath (u : Url) : String :=
  let path := cookiePathForm u.path
  if startsWith path "/" then path else "/" ++ path

/-- The host that a request shows to cookies. One without a dot is a local one. -/
def cookieHost (u : Url) : String :=
  let host := lowerName ({ u with portNumber := none }).authority
  if host.toList.contains '.' then host else host ++ ".local"

/-- Whether a text ends with another one. -/
def endsWith (s ending : String) : Bool := ending.toList.isSuffixOf s.toList

/-- Whether a domain is that of a host or one around it. -/
def reaches (domain host : String) : Bool :=
  endsWith ("." ++ host) (if startsWith domain "." then domain else "." ++ domain)

/-- Whether a host may set cookies for a domain that it names with a dot in front. -/
def mayName (host domain : String) : Bool :=
  let inner := String.ofList (domain.toList.drop 1)
  (inner.toList.contains '.' || endsWith host ".local") &&
    (reaches domain host || endsWith host (inner ++ ".local") || startsWith host ".")

/-- Whether a path lies below another one. -/
def isBelow (path outer : String) : Bool :=
  path == outer || startsWith path (if endsWith outer "/" then outer else outer ++ "/")

/-- The names of the months. -/
def monthNames : List String :=
  ["jan", "feb", "mar", "apr", "may", "jun", "jul", "aug", "sep", "oct", "nov", "dec"]

/-- Hours, minutes and seconds of a clock with colons, in seconds. -/
def clockSeconds? (s : String) : Option Nat := do
  let parts ← (splitOn ':' s).mapM fun p => if p.toList.all isAsciiDigit then p.toNat? else none
  let seconds (h m s : Nat) := if h ≤ 24 && m ≤ 59 && s ≤ 61
    then some (h * 3600 + m * 60 + s) else none
  match parts with
  | [h, m] => seconds h m 0
  | [h, m, s] => seconds h m s
  | _ => none

/-- The year that two or three digits stand for: one within fifty years of a given one. -/
def nearYear (now y : Nat) : Nat :=
  if 1000 ≤ y then y
  else
    let near := y + now - now % 100
    if now % 100 + 50 < y then near - 100 else if y + 50 < now % 100 then near + 100 else near

/-- The point in time that an expiry date writes, seen from another one, in universal time. -/
def expiry? (now : Calendar.Instant) (s : String) : Option Calendar.Instant := do
  let isGap (c : Char) := isBlank c || c == '-' || c == '/' || c == ','
  let ws := (runsOutside isGap s.toList).map fun cs => lowerName (String.ofList cs)
  let weekdays := ["mon", "tue", "wed", "thu", "fri", "sat", "sun"]
  let ws := match ws with
    | w :: rest => if weekdays.any (startsWith w) then rest else w :: rest
    | [] => []
  let number (w : String) : Option Nat := if w.toList.all isAsciiDigit then w.toNat? else none
  match ws with
  | d :: m :: y :: rest =>
    let month ← (monthNames.findIdx? (· == m)).elim (number m) fun i => some (i + 1)
    let today := Calendar.Date.ofDayNumber (now.micros / Calendar.day).toNat
    let year := nearYear today.year (← number y)
    let date : Calendar.Date := ⟨year, month, ← number d⟩
    let inUse := ["gmt", "utc", "ut", "z"]
    let clock ← match rest with
      | [] => some 0
      | [t] => if inUse.contains t then some 0 else clockSeconds? t
      | [t, z] => if inUse.contains z then clockSeconds? t else none
      | _ => none
    if 1970 ≤ year && year ≤ Calendar.maxYear && 1 ≤ month && month ≤ 12 && 1 ≤ date.day &&
        date.day ≤ 31 then
      some ⟨(Calendar.dayNumber date : Int) * Calendar.day + clock * Calendar.second⟩
    else none
  | _ => none

/-- The cookie that a header asks to keep, and whether it is to be dropped instead. -/
def Cookie.read? (now : Calendar.Instant) (u : Url) (header : String) : Option (Cookie × Bool) :=
  match (splitOn ';' header).map assignment with
  | [] => none
  | (name, value) :: attributes => do
    if name.isEmpty then failure
    let attributes := attributes.map fun a => (lowerName a.1, a.2)
    let version ← match attributes.lookup "version" with
      | none => some 0
      | some v => v.bind fun v => (Decimal.integer? (unquoted v)).toOption
    let path ← match attributes.lookup "path" with
      | none => some ""
      | some p => p
    let path :=
      if path.isEmpty then directory (version != 0) (cookiePath u) else cookiePathForm path
    let domain ← match attributes.lookup "domain" with
      | none => some (cookieHost u)
      | some d => d.map fun d => let d := lower d; if startsWith d "." then d else "." ++ d
    let secure := match attributes.lookup "secure" with
      | none => false
      | some v => v.all (!·.isEmpty)
    let ages ← (attributes.filter (·.1 == "max-age")).mapM fun a =>
      a.2.bind fun v => (Decimal.integer? v).toOption
    let dates := (attributes.filter (·.1 == "expires")).filterMap fun a =>
      a.2.bind fun v => expiry? now (unquoted v)
    let dropped := match ages.getLast?, dates with
      | some n, _ => n ≤ 0
      | none, t :: _ => t.micros / Calendar.second ≤ now.micros / Calendar.second
      | none, [] => false
    let named := (attributes.lookup "domain").isSome
    if !dropped && (1 < version || (named && !mayName (cookieHost u) domain)) then failure
    pure (⟨name, value, domain, path, secure⟩, dropped)

/-- What a request carries of a cookie. -/
def Cookie.text (c : Cookie) : String :=
  match c.value with
  | none => c.name
  | some v => s!"{c.name}={v}"

/-- Changes what stands under a key; a new key comes last. -/
def changeAt {α : Type} (key : String) (fresh : α) (f : α → α) :
    List (String × α) → List (String × α)
  | [] => [(key, f fresh)]
  | (k, a) :: rest => if k == key then (k, f a) :: rest else (k, a) :: changeAt key fresh f rest

namespace Jar

/-- Puts a cookie into the jar, at the place of one of its name, domain and path. -/
def put (jar : Jar) (c : Cookie) : Jar :=
  jar |> changeAt c.domain [] (changeAt c.path [] fun cs =>
    if cs.any (·.name == c.name) then cs.map fun d => if d.name == c.name then c else d
    else cs ++ [c])

/-- Takes the cookie of a name, domain and path out of the jar. -/
def drop (jar : Jar) (c : Cookie) : Jar :=
  jar.map fun (domain, shelves) => (domain, shelves.map fun (path, cs) =>
    (path, if domain == c.domain && path == c.path then cs.filter (·.name != c.name) else cs))

/-- Whether there are no cookies in the jar. -/
def isBare (jar : Jar) : Bool := jar.all fun (_, shelves) => shelves.all fun (_, cs) => cs.isEmpty

/-- The cookies after a response to a request. What is to be dropped is dropped first. -/
def keep (jar : Jar) (now : Calendar.Instant) (u : Url) (headers : Headers) : Jar :=
  let read := (headers.values "set-cookie").filterMap (Cookie.read? now u)
  let jar := (read.filter (·.2)).foldl (fun jar c => jar.drop c.1) jar
  (read.filter (!·.2)).foldl (fun jar c => jar.put c.1) jar

/-- The cookies that go along with a request. -/
def cookiesFor (jar : Jar) (u : Url) : List Cookie :=
  (jar.filter fun shelf => reaches shelf.1 (cookieHost u)).flatMap fun (_, shelves) =>
    (shelves.filter fun shelf => isBelow (cookiePath u) shelf.1).flatMap fun (_, cs) =>
      cs.filter fun c => !c.secure || u.scheme == "https" || u.scheme == "wss"

/-- What a request carries: the cookies with longer paths first. -/
def headerFor? (jar : Jar) (u : Url) : Option String :=
  match (jar.cookiesFor u).mergeSort fun c d => d.path.length ≤ c.path.length with
  | [] => none
  | cookies => some ("; ".intercalate (cookies.map Cookie.text))

end Jar

end Cadence.Http
