/-
Letters outside ASCII written with letters, digits and hyphens.

The ASCII characters of a text come first.  Then the others are inserted one after the other, by
character code, each as the distance from the place of the one before.  A distance is a row of
digits to the base 36 of varying thresholds, which adapt to the distances so far.

* `punycode` — the written form of a text.
-/
namespace Cadence.Text

/-- A digit to the base 36: letters, and then the ten digits. -/
def letterDigit (d : Nat) : Char :=
  if d < 26 then Char.ofNat (0x61 + d) else Char.ofNat (0x30 + d - 26)

/-- The threshold at a place: below it a digit is the last one. -/
def threshold (place bias : Nat) : Nat :=
  if place ≤ bias then 1 else if bias + 26 ≤ place then 26 else place - bias

theorem threshold_pos (place bias : Nat) : 1 ≤ threshold place bias := by
  unfold threshold
  split
  · omega
  · split <;> omega

/-- Divides a distance by 35 until it is small, and counts in steps of 36. -/
def shrink (distance count : Nat) : Nat × Nat :=
  if 455 < distance then shrink (distance / 35) (count + 36) else (distance, count)
termination_by distance
decreasing_by exact Nat.div_lt_self (by omega) (by omega)

/-- The bias after a distance, given how many characters there are then. -/
def nextBias (distance count : Nat) (first : Bool) : Nat :=
  let d := if first then distance / 700 else distance / 2
  let (d, n) := shrink (d + d / count) 0
  n + 36 * d / (d + 38)

/-- The digits of a distance, beginning at a place. -/
def distanceDigits (bias place distance : Nat) : List Char :=
  let t := threshold place bias
  if distance < t then [letterDigit distance]
  else
    letterDigit (t + (distance - t) % (36 - t)) ::
      distanceDigits bias (place + 36) ((distance - t) / (36 - t))
termination_by distance
decreasing_by
  have := threshold_pos place bias
  have := Nat.div_le_self (distance - threshold place bias) (36 - threshold place bias)
  omega

/-- What is known while characters are inserted. -/
structure Insertion where
  written : List Char
  distance : Nat
  bias : Nat
  /-- How many characters there are already. -/
  count : Nat

/-- Passes a character while the characters of one code are inserted. -/
def Insertion.pass (ascii code : Nat) (s : Insertion) (c : Char) : Insertion :=
  if c.toNat < code then { s with distance := s.distance + 1 }
  else if c.toNat = code then
    ⟨s.written ++ distanceDigits s.bias 36 s.distance, 0,
      nextBias s.distance (s.count + 1) (s.count == ascii), s.count + 1⟩
  else s

/-- Inserts the characters of the codes, which ascend from `first` on. -/
def Insertion.all (cs : List Char) (ascii : Nat) : List Nat → Nat → Insertion → Insertion
  | [], _, s => s
  | code :: rest, first, s =>
    let s := { s with distance := s.distance + (code - first) * (s.count + 1) }
    let s := cs.foldl (Insertion.pass ascii code) s
    Insertion.all cs ascii rest (code + 1) { s with distance := s.distance + 1 }

/-- The written form of a text. -/
def punycode (cs : List Char) : List Char :=
  let ascii := cs.filter fun c => c.toNat < 0x80
  let codes := (((cs.map Char.toNat).filter (0x80 ≤ ·)).mergeSort (· ≤ ·)).eraseDups
  let inserted := Insertion.all cs ascii.length codes 0x80 ⟨[], 0, 72, ascii.length⟩
  ascii ++ (if ascii.isEmpty then [] else ['-']) ++ inserted.written

end Cadence.Text
