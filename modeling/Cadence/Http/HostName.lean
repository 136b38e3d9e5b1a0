/-
Names of hosts.

A host is named by four numbers, by a row of hexadecimal groups between brackets, or by
labels with dots between them.  Labels of ASCII are brought into lower case; where one label
holds other letters, every label must be well formed, and it is written in ASCII with a mark
in front.

* `hostName` — the one form of a name, or what is wrong with it.
-/
import Cadence.Decimal.Notation
import Cadence.Text.Case
import Cadence.Text.Digit
import Cadence.Text.Encoding
import Cadence.Text.Punycode

namespace Cadence.Http

open Cadence.Text

/-- Why a text names no host. -/
inductive HostFault where
  /-- It looks like four numbers, but it is no such address. -/
  | numbers (text : String)
  /-- It stands between brackets, but it is no such address. -/
  | groups (text : String)
  | labels (text : String)
  deriving DecidableEq, Repr

/-- The wording of a fault. -/
def HostFault.message : HostFault → String
  | .numbers text => s!"Invalid IPv4 address: {quoted text}"
  | .groups text => s!"Invalid IPv6 address: {quoted text}"
  | .labels text => s!"Invalid IDNA hostname: {quoted text}"

/-- Letters and digits of ASCII. -/
def isAlphanumeric (c : Char) : Bool :=
  ('a' ≤ c && c ≤ 'z') || ('A' ≤ c && c ≤ 'Z') || isAsciiDigit c

/-- Whether a character is a hexadecimal digit. -/
def isHexDigit (c : Char) : Bool := (hexDigit? c).isSome

/-- A byte as a percent sign and two digits. -/
def percentByte (b : UInt8) : List Char := '%' :: (hexDigits 2 b.toNat).map Char.toUpper

/-- A character as the bytes of its UTF-8 form. -/
def percentChars (c : Char) : List Char := (utf8Bytes (String.ofList [c])).flatMap percentByte

/-- Writes the characters outside a class as percent signs and bytes. -/
def percentEncode (keep : Char → Bool) : List Char → List Char
  | [] => []
  | c :: rest =>
    match c, rest with
    | '%', a :: b :: _ =>
      if isHexDigit a && isHexDigit b then '%' :: percentEncode keep rest
      else (if keep c then [c] else percentChars c) ++ percentEncode keep rest
    | _, _ => (if keep c then [c] else percentChars c) ++ percentEncode keep rest

/-- A text with the characters outside a class encoded. -/
def encodeWith (keep : Char → Bool) (cs : List Char) : String :=
  String.ofList (percentEncode keep cs)

/-- The characters that stand for themselves in a host. -/
def inHost (c : Char) : Bool :=
  isAlphanumeric c || "-._~!$&'()*+,;=\"\x60\x7b\x7d%|\\".toList.contains c

/-- Where one may be in four numbers with one character between each two: how many numbers are still
to come, and whether a digit of this one was read. -/
abbrev NumberPlace := Nat × Bool

/-- The places after one more character. -/
def NumberPlace.after (places : List NumberPlace) (c : Char) : List NumberPlace :=
  (places.flatMap fun (left, begun) =>
    (if isAsciiDigit c then [(left, true)] else []) ++
      (if begun && 0 < left then [(left - 1, false)] else [])).eraseDups

/-- Whether a text looks like four numbers: any character may stand between two of them. -/
def looksNumeric (cs : List Char) : Bool :=
  (cs.foldl NumberPlace.after [(3, false)]).contains (0, true)

/-- Whether a text is one of the four numbers of an address. -/
def isOctet (cs : List Char) : Bool :=
  !cs.isEmpty && cs.all isAsciiDigit && cs.length ≤ 3 && (cs.length = 1 || cs.head? != some '0') &&
    cs.foldl (fun n d => 10 * n + (d.toNat - '0'.toNat)) 0 ≤ 255

/-- Whether a text is an address of four numbers. -/
def isNumberAddress (cs : List Char) : Bool :=
  let parts := splitChars '.' cs
  parts.length = 4 && parts.all isOctet

/-- Whether a text is a group of an address of hexadecimal groups. -/
def isGroup (cs : List Char) : Bool := !cs.isEmpty && cs.length ≤ 4 && cs.all isHexDigit

/-- The groups of an address; four numbers at its end count as two groups. -/
def addressGroups (cs : List Char) : Option (List (List Char)) :=
  let parts := splitChars ':' cs
  if parts.length < 3 then none
  else
    match parts.getLast? with
    | some last =>
      if last.contains '.' then
        if isNumberAddress last then some (parts.dropLast ++ [['0'], ['0']]) else none
      else some parts
    | none => none

/-- Whether groups are an address: eight, or fewer with one gap between two colons. -/
def areGroups (parts : List (List Char)) : Bool :=
  let inner := (parts.drop 1).dropLast
  if 9 < parts.length then false
  else
    match inner.findIdx? (·.isEmpty) with
    | none => parts.length = 8 && parts.all isGroup
    | some i =>
      let before := parts.take (i + 1)
      let behind := parts.drop (i + 2)
      let before := if before == [[]] then [] else before
      let behind := if behind == [[]] then [] else behind
      (before ++ behind).all isGroup && before.length + behind.length ≤ 7

/-- Whether a text is an address of hexadecimal groups, with or without the name of a zone. -/
def isGroupAddress (cs : List Char) : Bool :=
  let (address, zone) := cutAt '%' cs
  let zoneHolds := match zone with
    | none => true
    | some z => !z.isEmpty && !z.contains '%'
  zoneHolds && !cs.contains '/' && ((addressGroups address).map areGroups).getD false

/-- The first half of `nameRanges`. -/
def nameRanges1 : List (Nat × Nat) := [
  (0xdf, 0xf6), (0xf8, 0x131), (0x135, 0x13e), (0x142, 0x148), (0x14b, 0x17e), (0x180, 0x1c3),
  (0x1ce, 0x1f0), (0x1f5, 0x2af), (0x2b9, 0x2c1), (0x2c6, 0x2d1), (0x2ec, 0x2ec), (0x2ee, 0x2ee),
  (0x300, 0x33f), (0x342, 0x342), (0x346, 0x34e), (0x350, 0x373), (0x377, 0x377), (0x37b, 0x37d),
  (0x390, 0x3ce), (0x3d7, 0x3ef), (0x3f3, 0x3f3), (0x3f8, 0x481), (0x483, 0x487), (0x48b, 0x559),
  (0x560, 0x586), (0x588, 0x588), (0x591, 0x5bd), (0x5bf, 0x5bf), (0x5c1, 0x5c2), (0x5c4, 0x5c5),
  (0x5c7, 0x5f2), (0x610, 0x61a), (0x620, 0x63f), (0x641, 0x65f), (0x66e, 0x674), (0x679, 0x6d3),
  (0x6d5, 0x6dc), (0x6df, 0x6e8), (0x6ea, 0x6ef), (0x6fa, 0x6ff), (0x710, 0x7f5), (0x7fd, 0x7fd),
  (0x800, 0x82d), (0x840, 0x85b), (0x860, 0x887), (0x889, 0x88f), (0x897, 0x8e1), (0x8e3, 0x957),
  (0x960, 0x963), (0x966, 0x96f), (0x971, 0x9d7), (0x9e0, 0x9f1), (0x9fc, 0x9fc), (0x9fe, 0xa32),
  (0xa35, 0xa35), (0xa38, 0xa51), (0xa5c, 0xa5c), (0xa66, 0xa75), (0xa81, 0xaef), (0xaf9, 0xb57),
  (0xb5f, 0xb6f), (0xb71, 0xb71), (0xb82, 0xbef), (0xc00, 0xc6f), (0xc80, 0xc83), (0xc85, 0xd4e),
  (0xd54, 0xd57), (0xd5f, 0xd6f), (0xd7a, 0xdf3), (0xe01, 0xe32), (0xe34, 0xe3a), (0xe40, 0xe4e),
  (0xe50, 0xe59), (0xe81, 0xeb2), (0xeb4, 0xed9), (0xede, 0xf00), (0xf0b, 0xf0b), (0xf18, 0xf19),
  (0xf20, 0xf29), (0xf35, 0xf35), (0xf37, 0xf37), (0xf39, 0xf39), (0xf3e, 0xf42), (0xf44, 0xf4c),
  (0xf4e, 0xf51), (0xf53, 0xf56), (0xf58, 0xf5b), (0xf5d, 0xf68), (0xf6a, 0xf72), (0xf74, 0xf74),
  (0xf7a, 0xf80), (0xf82, 0xf84), (0xf86, 0xf92), (0xf94, 0xf9c), (0xf9e, 0xfa1), (0xfa3, 0xfa6),
  (0xfa8, 0xfab), (0xfad, 0xfb8), (0xfba, 0xfbc), (0xfc6, 0xfc6), (0x1000, 0x1049),
  (0x1050, 0x109d), (0x10d0, 0x10fa), (0x10fd, 0x10ff), (0x1200, 0x135f), (0x1380, 0x138f),
  (0x13a0, 0x13f5), (0x1401, 0x166c), (0x166f, 0x167f), (0x1681, 0x169a), (0x16a0, 0x16ea),
  (0x16f1, 0x1734), (0x1740, 0x17b3), (0x17b6, 0x17d3), (0x17d7, 0x17d7), (0x17dc, 0x17e9),
  (0x1810, 0x193b), (0x1946, 0x19d9), (0x1a00, 0x1a1b), (0x1a20, 0x1a99), (0x1aa7, 0x1aa7),
  (0x1ab0, 0x1abd), (0x1abf, 0x1b59), (0x1b6b, 0x1b73), (0x1b80, 0x1bf3), (0x1c00, 0x1c37),
  (0x1c40, 0x1c7d), (0x1c8a, 0x1c8a), (0x1cd0, 0x1cd2), (0x1cd4, 0x1d2b), (0x1d2f, 0x1d2f),
  (0x1d3b, 0x1d3b), (0x1d4e, 0x1d4e), (0x1d6b, 0x1d77), (0x1d79, 0x1d9a), (0x1dc0, 0x1e99),
  (0x1e9c, 0x1f70), (0x1f72, 0x1f72), (0x1f74, 0x1f74), (0x1f76, 0x1f76), (0x1f78, 0x1f78),
  (0x1f7a, 0x1f7a), (0x1f7c, 0x1f7c), (0x1fb0, 0x1fb1), (0x1fb6, 0x1fb6), (0x1fc6, 0x1fc6),
  (0x1fd0, 0x1fd2), (0x1fd6, 0x1fd7)]

/-- The second half of `nameRanges`. -/
def nameRanges2 : List (Nat × Nat) := [
  (0x1fe0, 0x1fe2), (0x1fe4, 0x1fe7), (0x1ff6, 0x1ff6), (0x214e, 0x214e), (0x2184, 0x2184),
  (0x2c30, 0x2c7b), (0x2c81, 0x2ce4), (0x2cec, 0x2cf3), (0x2d00, 0x2d67), (0x2d7f, 0x2dff),
  (0x2e2f, 0x2e2f), (0x3005, 0x3007), (0x302a, 0x302d), (0x303c, 0x303c), (0x3041, 0x309a),
  (0x309d, 0x309e), (0x30a1, 0x30fa), (0x30fc, 0x30fe), (0x3105, 0x312f), (0x31a0, 0x31bf),
  (0x31f0, 0x31ff), (0x3400, 0x4dbf), (0x4e00, 0xa48c), (0xa4d0, 0xa4fd), (0xa500, 0xa60c),
  (0xa610, 0xa66f), (0xa674, 0xa67d), (0xa67f, 0xa69b), (0xa69e, 0xa6e5), (0xa6f0, 0xa6f1),
  (0xa717, 0xa71f), (0xa723, 0xa76f), (0xa771, 0xa788), (0xa78c, 0xa7db), (0xa7f6, 0xa7f7),
  (0xa7fa, 0xa827), (0xa82c, 0xa82c), (0xa840, 0xa873), (0xa880, 0xa8c5), (0xa8d0, 0xa8f7),
  (0xa8fb, 0xa8fb), (0xa8fd, 0xa92d), (0xa930, 0xa953), (0xa980, 0xa9c0), (0xa9cf, 0xa9d9),
  (0xa9e0, 0xaa59), (0xaa60, 0xaa76), (0xaa7a, 0xaadd), (0xaae0, 0xaaef), (0xaaf2, 0xab5a),
  (0xab60, 0xab68), (0xabc0, 0xabea), (0xabec, 0xd7a3), (0xfa0e, 0xfa0f), (0xfa11, 0xfa11),
  (0xfa13, 0xfa14), (0xfa1f, 0xfa1f), (0xfa21, 0xfa21), (0xfa23, 0xfa24), (0xfa27, 0xfa29),
  (0xfb1e, 0xfb1e), (0xfe20, 0xfe2f), (0xfe73, 0xfe73), (0x10000, 0x100fa), (0x101fd, 0x102e0),
  (0x10300, 0x1031f), (0x1032d, 0x10340), (0x10342, 0x10349), (0x10350, 0x1039d),
  (0x103a0, 0x103cf), (0x10428, 0x10563), (0x10597, 0x10780), (0x10800, 0x10855),
  (0x10860, 0x10876), (0x10880, 0x1089e), (0x108e0, 0x108f5), (0x10900, 0x10915),
  (0x10920, 0x10939), (0x10940, 0x109b7), (0x109be, 0x109bf), (0x10a00, 0x10a3f),
  (0x10a60, 0x10a7c), (0x10a80, 0x10a9c), (0x10ac0, 0x10ac7), (0x10ac9, 0x10ae6),
  (0x10b00, 0x10b35), (0x10b40, 0x10b55), (0x10b60, 0x10b72), (0x10b80, 0x10b91),
  (0x10c00, 0x10cf2), (0x10d00, 0x10d85), (0x10e80, 0x10eac), (0x10eb0, 0x10f1c),
  (0x10f27, 0x10f50), (0x10f70, 0x10f85), (0x10fb0, 0x10fc4), (0x10fe0, 0x11046),
  (0x11066, 0x110ba), (0x110c2, 0x110c2), (0x110d0, 0x1113f), (0x11144, 0x11173),
  (0x11176, 0x111c4), (0x111c9, 0x111cc), (0x111ce, 0x111da), (0x111dc, 0x111dc),
  (0x11200, 0x11237), (0x1123e, 0x112a8), (0x112b0, 0x1144a), (0x11450, 0x11459),
  (0x1145e, 0x114c5), (0x114c7, 0x115c0), (0x115d8, 0x11640), (0x11644, 0x11659),
  (0x11680, 0x116b8), (0x116c0, 0x11739), (0x11740, 0x1183a), (0x118c0, 0x118e9),
  (0x118ff, 0x11943), (0x11950, 0x119e1), (0x119e3, 0x11a3e), (0x11a47, 0x11a99),
  (0x11a9d, 0x11a9d), (0x11ab0, 0x11c40), (0x11c50, 0x11c59), (0x11c72, 0x11ef6),
  (0x11f00, 0x11fb0), (0x12000, 0x12399), (0x12480, 0x12ff0), (0x13000, 0x1342f),
  (0x13440, 0x16a69), (0x16a70, 0x16af4), (0x16b00, 0x16b36), (0x16b40, 0x16b43),
  (0x16b50, 0x16b59), (0x16b63, 0x16e7f), (0x16ebb, 0x16fe1), (0x16fe3, 0x1bc99),
  (0x1bc9d, 0x1bc9e), (0x1cf00, 0x1cf46), (0x1da00, 0x1da36), (0x1da3b, 0x1da6c),
  (0x1da75, 0x1da75), (0x1da84, 0x1da84), (0x1da9b, 0x1e14e), (0x1e290, 0x1e2f9),
  (0x1e4d0, 0x1e8c4), (0x1e8d0, 0x1e959), (0x20000, 0x2ee5d), (0x30000, 0x33479)]

/-- Ranges of the letters, marks and digits outside ASCII that names of hosts may hold,
taken in lower case; capital letters and characters without a meaning stand within the
ranges. -/
def nameRanges : List (Nat × Nat) := nameRanges1 ++ nameRanges2

/-- Whether a character may stand in a label. -/
def inLabel (c : Char) : Bool :=
  ('a' ≤ c && c ≤ 'z') || isAsciiDigit c || c == '-' ||
    nameRanges.any fun r => r.1 ≤ c.toNat && c.toNat ≤ r.2

/-- Whether a character is a mark over the one before it. -/
def isMark (c : Char) : Bool := 0x300 ≤ c.toNat && c.toNat ≤ 0x36f

/-- Whether a character belongs to a script that is written from right to left. -/
def isLeftward (c : Char) : Bool :=
  let n := c.toNat
  (0x590 ≤ n && n ≤ 0x8ff) || (0xfb1d ≤ n && n ≤ 0xfdff) || (0xfe70 ≤ n && n ≤ 0xfeff) ||
    (0x10800 ≤ n && n ≤ 0x10fff) || (0x1e800 ≤ n && n ≤ 0x1efff)

/-- Whether letters written from right to left stand alone, or with digits, hyphens and marks behind
them. -/
def keepsDirection (cs : List Char) : Bool :=
  !cs.any isLeftward ||
    (cs.head?.any isLeftward && cs.all fun c => isLeftward c || isAsciiDigit c || c ==
      '-' || isMark c)

/-- Whether a text is a label: no hyphen at an end, none at both the third and the fourth place, no
mark at the beginning, and one direction of writing. -/
def isLabel (cs : List Char) : Bool :=
  !cs.isEmpty && cs.head? != some '-' && cs.getLast? != some '-' &&
    (cs.drop 2).take 2 != ['-', '-'] && cs.all inLabel && !cs.head?.any isMark && keepsDirection cs

/-- A label in ASCII. -/
def asciiLabel (cs : List Char) : Option (List Char) :=
  let written := if cs.all (·.toNat < 0x80) then cs else "xn--".toList ++ punycode cs
  if isLabel cs && written.length ≤ 63 then some written else none

/-- The labels of a name: between dots of any script. -/
def labelsOf (cs : List Char) : List (List Char) :=
  splitChars '.' (cs.map fun c => if "\u3002\uff0e\uff61".toList.contains c then '.' else c)

/-- A name in ASCII. A dot at its end stays. -/
def asciiName (cs : List Char) : Option (List Char) := do
  let labels := labelsOf cs
  let closed := labels.getLast? == some []
  let written ← (if closed then labels.dropLast else labels).mapM asciiLabel
  let name := List.intercalate ['.'] (if closed then written ++ [[]] else written)
  if written.isEmpty || (if closed then 254 else 253) < name.length then none else some name

/-- The one form of the name of a host. -/
def hostName (cs : List Char) : Except HostFault String :=
  let text := String.ofList cs
  if cs.isEmpty then .ok ""
  else if looksNumeric cs then if isNumberAddress cs then .ok text else .error (.numbers text)
  else if cs.head? == some '[' && cs.getLast? == some ']' then
    let inside := (cs.drop 1).dropLast
    if isGroupAddress inside then .ok (String.ofList inside) else .error (.groups text)
  else if cs.all (·.toNat < 0x80) then .ok (encodeWith inHost (cs.map Char.toLower))
  else
    match asciiName (lower text).toList with
    | some name => .ok (String.ofList name)
    | none => .error (.labels text)

end Cadence.Http
