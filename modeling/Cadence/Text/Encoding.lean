/-
Bytes as text.

Bytes that belong to no character are told apart from the characters around them: UTF-8 bytes are
taken in the longest pieces that could still begin a character, so a broken piece never hides the
character after it.

* `isHalf` — the codes that are no characters, the halves of surrogate pairs;
* `utf8Next` — the first character or broken piece of UTF-8 bytes;
* `Encoding.decode` — the text of bytes, with a replacement character for each broken piece;
* `Encoding.decode?` — the text of bytes without broken pieces;
* `Encoding.decodeWith?` — the same where halves of surrogate pairs may stand on their own;
* `Encoding.lacksMark` — whether the order of the bytes is not told;
* `Encoding.ofName?` — the encoding that goes by a name;
* `Utf8Fault.message` — the first broken piece of UTF-8 bytes in words.
-/
import Cadence.Text.Quoted
import Cadence.Text.Blank

namespace Cadence.Text

/-- Whether a code is half of a surrogate pair. -/
def isHalf (n : Nat) : Bool := 0xd800 ≤ n && n ≤ 0xdfff

/-- What breaks a piece of UTF-8 bytes. -/
inductive Utf8Flaw where
  | start
  | continuation
  | truncated
  deriving DecidableEq, Repr

/-- A flaw in words. -/
def Utf8Flaw.message : Utf8Flaw → String
  | .start => "invalid start byte"
  | .continuation => "invalid continuation byte"
  | .truncated => "unexpected end of data"

/-- At most `count` continuation bytes, the first of which lies between the given bounds. -/
def continuationBytes (low high : Nat) : Nat → List UInt8 → List Nat
  | 0, _ => []
  | _, [] => []
  | n + 1, b :: bs =>
    if low ≤ b.toNat && b.toNat ≤ high then b.toNat :: continuationBytes 0x80 0xbf n bs else []

/-- The first character or broken piece of UTF-8 bytes, given the first byte and those after it:
how many bytes after the first one it takes, and what it is. -/
def utf8Next (first : UInt8) (rest : List UInt8) : Nat × Except Utf8Flaw Char :=
  let n := first.toNat
  if n < 0x80 then (0, .ok (Char.ofNat n))
  else if n < 0xc2 || 0xf4 < n then (0, .error .start)
  else
    let count := if n < 0xe0 then 1 else if n < 0xf0 then 2 else 3
    let low := if n = 0xe0 then 0xa0 else if n = 0xf0 then 0x90 else 0x80
    let high := if n = 0xed then 0x9f else if n = 0xf4 then 0x8f else 0xbf
    let tail := continuationBytes low high count rest
    if tail.length = count then
      (count, .ok (Char.ofNat
        (tail.foldl (fun v b => 64 * v + b % 64) (n % Nat.pow 2 (6 - count)))))
    else if tail.length = rest.length then (tail.length, .error .truncated)
    else (tail.length, .error .continuation)

/-- Half of a surrogate pair, written as UTF-8 writes characters. -/
def utf8Half? : List UInt8 → Option Nat
  | 0xed :: b :: c :: _ =>
    if 0xa0 ≤ b && b ≤ 0xbf && 0x80 ≤ c && c ≤ 0xbf then
      some (0xd000 + 64 * (b.toNat % 64) + c.toNat % 64)
    else none
  | _ => none

/-- The characters of UTF-8 bytes, `none` for each broken piece. Half of a surrogate pair is
one unless a character is given for it. -/
def utf8Pieces (half : Nat → Option Char) : List UInt8 → List (Option Char)
  | [] => []
  | b :: bs =>
    match (utf8Half? (b :: bs)).bind half, utf8Next b bs with
    | some c, _ => some c :: utf8Pieces half (bs.drop 2)
    | none, (n, .ok c) => some c :: utf8Pieces half (bs.drop n)
    | none, (n, .error _) => none :: utf8Pieces half (bs.drop n)
  termination_by bs => bs.length
  decreasing_by all_goals (rw [List.length_drop, List.length_cons]; omega)

/-- The first broken piece of UTF-8 bytes. -/
structure Utf8Fault where
  first : UInt8
  place : Nat
  length : Nat
  flaw : Utf8Flaw
  deriving DecidableEq, Repr

/-- The characters of UTF-8 bytes that begin at a place, or the first broken piece. -/
def utf8Chars (place : Nat) : List UInt8 → Except Utf8Fault (List Char)
  | [] => .ok []
  | b :: bs =>
    match utf8Next b bs with
    | (n, .ok c) => (utf8Chars (place + n + 1) (bs.drop n)).map (c :: ·)
    | (n, .error flaw) => .error ⟨b, place, n + 1, flaw⟩
  termination_by bs => bs.length
  decreasing_by rw [List.length_drop, List.length_cons]; omega

/-- The wording of a fault. -/
def Utf8Fault.message (f : Utf8Fault) : String :=
  if f.length = 1 then
    s!"'utf-8' codec can't decode byte 0x{String.ofList (hexDigits 2 f.first.toNat)} in position "
      ++ s!"{f.place}: {f.flaw.message}"
  else
    s!"'utf-8' codec can't decode bytes in position {f.place}-{f.place + f.length - 1}: " ++
      f.flaw.message

/-- The ways of writing text as bytes. A mark at the beginning may tell the order of the bytes. -/
inductive Encoding where
  | utf8
  | utf8Marked
  | utf16 (bigEndian : Bool)
  | utf16Marked
  | utf32 (bigEndian : Bool)
  | utf32Marked
  | latin1
  /-- Latin 1 with the sign for the euro, and seven letters in place of other signs. -/
  | latin9
  /-- Latin 1 with letters and signs in place of controls. -/
  | windows1252
  | ascii
  deriving DecidableEq, Repr

/-- Where Latin 9 departs from Latin 1. -/
def latin9Characters : List (UInt8 × Option Char) := [
  (0xa4, some '\u20ac'), (0xa6, some '\u0160'), (0xa8, some '\u0161'), (0xb4, some '\u017d'),
  (0xb8, some '\u017e'), (0xbc, some '\u0152'), (0xbd, some '\u0153'), (0xbe, some '\u0178')]

/-- Where code page 1252 departs from Latin 1: five places have no character. -/
def windows1252Characters : List (UInt8 × Option Char) := [
  (0x80, some '\u20ac'), (0x81, none), (0x82, some '\u201a'), (0x83, some '\u0192'),
  (0x84, some '\u201e'), (0x85, some '\u2026'), (0x86, some '\u2020'), (0x87, some '\u2021'),
  (0x88, some '\u02c6'), (0x89, some '\u2030'), (0x8a, some '\u0160'), (0x8b, some '\u2039'),
  (0x8c, some '\u0152'), (0x8d, none), (0x8e, some '\u017d'), (0x8f, none), (0x90, none),
  (0x91, some '\u2018'), (0x92, some '\u2019'), (0x93, some '\u201c'), (0x94, some '\u201d'),
  (0x95, some '\u2022'), (0x96, some '\u2013'), (0x97, some '\u2014'), (0x98, some '\u02dc'),
  (0x99, some '\u2122'), (0x9a, some '\u0161'), (0x9b, some '\u203a'), (0x9c, some '\u0153'),
  (0x9d, none), (0x9e, some '\u017e'), (0x9f, some '\u0178')]

/-- The number that a row of bytes writes. -/
def bytesValue (bigEndian : Bool) (bs : List UInt8) : Nat :=
  (if bigEndian then bs else bs.reverse).foldl (fun v b => 256 * v + b.toNat) 0

/-- A character by its code point, if there is one. -/
def charOf? (n : Nat) : Option Char :=
  if h : n.isValidChar then some (Char.ofNatAux n h) else none

/-- The characters of UTF-16 bytes. -/
def utf16Pieces (half : Nat → Option Char) (bigEndian : Bool) : List UInt8 → List (Option Char)
  | [] => []
  | [_] => [none]
  | a :: b :: rest =>
    let n := bytesValue bigEndian [a, b]
    if !isHalf n then charOf? n :: utf16Pieces half bigEndian rest
    else if 0xdc00 ≤ n then half n :: utf16Pieces half bigEndian rest
    else
      match rest with
      | c :: d :: after =>
        let m := bytesValue bigEndian [c, d]
        if 0xdc00 ≤ m && m < 0xe000 then
          charOf? (0x10000 + (n - 0xd800) * 0x400 + (m - 0xdc00)) ::
            utf16Pieces half bigEndian after
        else half n :: utf16Pieces half bigEndian (c :: d :: after)
      | [] => [half n]
      | [_] => if (half n).isSome then [half n, none] else [none]

/-- The characters of UTF-32 bytes. -/
def utf32Pieces (half : Nat → Option Char) (bigEndian : Bool) : List UInt8 → List (Option Char)
  | [] => []
  | a :: b :: c :: d :: rest =>
    let n := bytesValue bigEndian [a, b, c, d]
    (if isHalf n then half n else charOf? n) :: utf32Pieces half bigEndian rest
  | _ => [none]

namespace Encoding

/-- The characters of bytes, `none` for each broken piece. -/
def pieces (half : Nat → Option Char) : Encoding → List UInt8 → List (Option Char)
  | .utf8, bs => utf8Pieces half bs
  | .utf8Marked, 0xef :: 0xbb :: 0xbf :: bs => utf8Pieces half bs
  | .utf8Marked, bs => utf8Pieces half bs
  | .utf16 bigEndian, bs => utf16Pieces half bigEndian bs
  | .utf16Marked, 0xfe :: 0xff :: bs => utf16Pieces half true bs
  | .utf16Marked, 0xff :: 0xfe :: bs => utf16Pieces half false bs
  | .utf16Marked, bs => utf16Pieces half false bs
  | .utf32 bigEndian, bs => utf32Pieces half bigEndian bs
  | .utf32Marked, 0x00 :: 0x00 :: 0xfe :: 0xff :: bs => utf32Pieces half true bs
  | .utf32Marked, 0xff :: 0xfe :: 0x00 :: 0x00 :: bs => utf32Pieces half false bs
  | .utf32Marked, bs => utf32Pieces half false bs
  | .latin1, bs => bs.map fun b => some (Char.ofNat b.toNat)
  | .latin9, bs => bs.map fun b => (latin9Characters.lookup b).getD (some (Char.ofNat b.toNat))
  | .windows1252, bs =>
    bs.map fun b => (windows1252Characters.lookup b).getD (some (Char.ofNat b.toNat))
  | .ascii, bs => bs.map fun b => if b < 0x80 then some (Char.ofNat b.toNat) else none

/-- The text of bytes, with a replacement character for each broken piece. -/
def decode (e : Encoding) (bs : List UInt8) : String :=
  String.ofList ((e.pieces (fun _ => none) bs).map (·.getD '\ufffd'))

/-- Whether bytes lack the mark at their beginning that should tell their order. Bytes too few for a
character need none. -/
def lacksMark : Encoding → List UInt8 → Bool
  | .utf16Marked, 0xfe :: 0xff :: _ | .utf16Marked, 0xff :: 0xfe :: _ => false
  | .utf16Marked, bs => 2 ≤ bs.length
  | .utf32Marked, 0x00 :: 0x00 :: 0xfe :: 0xff :: _ | .utf32Marked,
      0xff :: 0xfe :: 0x00 :: 0x00 :: _ => false
  | .utf32Marked, bs => 4 ≤ bs.length
  | _, _ => false

/-- The text of bytes without broken pieces. -/
def decode? (e : Encoding) (bs : List UInt8) : Option String :=
  ((e.pieces (fun _ => none) bs).mapM id).map String.ofList

/-- The text of bytes without broken pieces, with given characters for halves of surrogate pairs. -/
def decodeWith? (half : Nat → Char) (e : Encoding) (bs : List UInt8) : Option String :=
  ((e.pieces (some ∘ half) bs).mapM id).map String.ofList

/-- The names of the encodings, with low lines between their parts. -/
def byName : List (String × Encoding) := [
  ("utf_8", .utf8), ("utf8", .utf8), ("u8", .utf8), ("utf", .utf8), ("cp65001", .utf8),
  ("utf_8_sig", .utf8Marked),
  ("utf_16", .utf16Marked), ("utf16", .utf16Marked), ("u16", .utf16Marked),
  ("utf_16_le", .utf16 false), ("utf_16le", .utf16 false), ("utf_16_be", .utf16 true),
    ("utf_16be", .utf16 true),
  ("utf_32", .utf32Marked), ("utf32", .utf32Marked), ("u32", .utf32Marked),
  ("utf_32_le", .utf32 false), ("utf_32le", .utf32 false), ("utf_32_be", .utf32 true),
    ("utf_32be", .utf32 true),
  ("latin_1", .latin1), ("latin1", .latin1), ("latin", .latin1), ("l1", .latin1), ("8859", .latin1),
  ("cp819", .latin1), ("iso8859", .latin1), ("iso8859_1", .latin1), ("iso_8859_1", .latin1),
  ("iso8859_15", .latin9), ("iso_8859_15", .latin9), ("latin_9", .latin9),
    ("latin9", .latin9), ("l9", .latin9),
  ("cp1252", .windows1252), ("windows_1252", .windows1252), ("1252", .windows1252),
  ("ascii", .ascii), ("us_ascii", .ascii), ("us", .ascii), ("646", .ascii), ("cp367", .ascii)]

/-- The encoding that goes by a name, in any letter case and with any signs between its parts. -/
def ofName? (name : String) : Option Encoding :=
  let parts := runsOutside (fun c => !(c.isAlphanum || c == '.')) (name.toList.map Char.toLower)
  byName.lookup ("_".intercalate (parts.map String.ofList))

/-- The encoding of a JSON text, told from its first bytes: a mark, or the zero bytes around the
first characters, which are ASCII. -/
def ofJsonText : List UInt8 → Encoding
  | 0x00 :: 0x00 :: 0xfe :: 0xff :: _ => .utf32Marked
  | 0xff :: 0xfe :: 0x00 :: 0x00 :: _ => .utf32Marked
  | 0xfe :: 0xff :: _ => .utf16Marked
  | 0xff :: 0xfe :: _ => .utf16Marked
  | 0xef :: 0xbb :: 0xbf :: _ => .utf8Marked
  | a :: b :: c :: d :: _ =>
    if a == 0 then if b == 0 then .utf32 true else .utf16 true
    else if b == 0 then if c == 0 && d == 0 then .utf32 false else .utf16 false
    else .utf8
  | [a, b] => if a == 0 then .utf16 true else if b == 0 then .utf16 false else .utf8
  | _ => .utf8

end Encoding

/-- The bytes of a text in UTF-8. -/
def utf8Bytes (s : String) : List UInt8 := s.toUTF8.toList

end Cadence.Text
