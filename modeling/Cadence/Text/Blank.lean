/-
Blank characters, and the two ways of taking a text apart at characters.

* `trim` — a text without the blanks at its two ends;
* `words` — the maximal runs of characters that are not blank;
* `splitOn` — the parts between the occurrences of one separator, always at least one part.
-/
namespace Cadence.Text

/-- Whether a character separates words: the ASCII controls from tab to carriage return and from
file to unit separator, and the spaces and line separators of Unicode. -/
def isBlank (c : Char) : Bool :=
  let n := c.toNat
  (9 ≤ n && n ≤ 13) || (28 ≤ n && n ≤ 32) || n == 0x85 || n == 0xa0 || n == 0x1680 ||
    (0x2000 ≤ n && n ≤ 0x200a) || n == 0x2028 || n == 0x2029 || n == 0x202f || n == 0x205f ||
    n == 0x3000

/-- The Unicode property `White_Space`: the blanks without the four information separators. -/
def isWhiteSpace (c : Char) : Bool := isBlank c && !(28 ≤ c.toNat && c.toNat ≤ 31)

/-- Removes the characters of a class from both ends. -/
def stripWhile (p : Char → Bool) (cs : List Char) : List Char :=
  ((cs.dropWhile p).reverse.dropWhile p).reverse

/-- A text without the blanks at its two ends. -/
def trim (s : String) : String := String.ofList (stripWhile isBlank s.toList)

/-- Whether a text has no character but blanks. -/
def isAllBlank (s : String) : Bool := s.toList.all isBlank

/-- Splits characters at each occurrence of a separator. -/
def splitChars (sep : Char) : List Char → List (List Char)
  | [] => [[]]
  | c :: cs =>
    if c = sep then [] :: splitChars sep cs
    else
      match splitChars sep cs with
      | [] => [[c]]
      | part :: parts => (c :: part) :: parts

/-- The parts of a text between the occurrences of a separator. -/
def splitOn (sep : Char) (s : String) : List String :=
  (splitChars sep s.toList).map String.ofList

/-- The maximal runs of characters outside a class. -/
def runsOutside (p : Char → Bool) : List Char → List (List Char)
  | [] => []
  | c :: cs =>
    if p c then runsOutside p cs
    else
      match cs, runsOutside p cs with
      | [], rest => [c] :: rest
      | d :: _, rest =>
        if p d then [c] :: rest
        else
          match rest with
          | [] => [[c]]
          | run :: runs => (c :: run) :: runs

/-- The words of a text: its maximal runs of characters that are not blank. -/
def words (s : String) : List String := (runsOutside isBlank s.toList).map String.ofList

/-- The part before the first occurrence of a character, and the part after it if there is one. -/
def cutAt (sep : Char) : List Char → List Char × Option (List Char)
  | [] => ([], none)
  | c :: cs =>
    if c = sep then ([], some cs)
    else ((cutAt sep cs).1.cons c, (cutAt sep cs).2)

/-- Whether one text begins with another. -/
def startsWith (s start : String) : Bool := start.toList.isPrefixOf s.toList

end Cadence.Text
