/-
Bytes written as Base64.

Four characters of an alphabet of sixty-four make three bytes; characters outside the alphabet are
passed over, and equality signs complete the last four.

* `base64?` — the bytes that a text writes, if its last four characters are complete;
* `base64` — the text of bytes.
-/
namespace Cadence.Text

/-- The place of a character in the alphabet: capitals, small letters, digits and two signs. -/
def sextet? (c : Char) : Option Nat :=
  let n := c.toNat
  if 'A' ≤ c && c ≤ 'Z' then some (n - 65)
  else if 'a' ≤ c && c ≤ 'z' then some (n - 71)
  else if '0' ≤ c && c ≤ '9' then some (n + 4)
  else if c == '+' then some 62
  else if c == '/' then some 63
  else none

/-- The bytes that sextets complete, given those of the last four that came before and the number of
equality signs since. -/
def base64From (before : List Nat) (signs : Nat) : List Char → Option (List UInt8)
  | [] => if before.isEmpty then some [] else none
  | c :: cs =>
    if c == '=' then
      if 2 ≤ before.length then
        if 4 ≤ before.length + signs + 1 then some [] else base64From before (signs + 1) cs
      else base64From before signs cs
    else
      match sextet? c with
      | none => base64From before signs cs
      | some n =>
        match before with
        | [] => base64From [n] 0 cs
        | [a] => (base64From [a, n] 0 cs).map ((a * 4 + n / 16).toUInt8 :: ·)
        | [a, b] => (base64From [a, b, n] 0 cs).map ((b % 16 * 16 + n / 4).toUInt8 :: ·)
        | _ => (base64From [] 0 cs).map ((before.getLastD 0 % 4 * 64 + n).toUInt8 :: ·)

/-- The bytes that a text writes, if its last four characters are complete. -/
def base64? (s : String) : Option (List UInt8) := base64From [] 0 s.toList

/-- The character of the alphabet at a place. -/
def sextetChar (n : Nat) : Char :=
  if n < 26 then Char.ofNat (n + 65)
  else if n < 52 then Char.ofNat (n + 71)
  else if n < 62 then Char.ofNat (n - 4)
  else if n = 62 then '+'
  else '/'

/-- The text of bytes. -/
def base64Chars : List UInt8 → List Char
  | a :: b :: c :: rest =>
    let n := a.toNat * 65536 + b.toNat * 256 + c.toNat
    sextetChar (n / 262144) :: sextetChar (n / 4096 % 64) :: sextetChar (n / 64 % 64) ::
      sextetChar (n % 64) :: base64Chars rest
  | [a, b] =>
    let n := a.toNat * 1024 + b.toNat * 4
    [sextetChar (n / 4096), sextetChar (n / 64 % 64), sextetChar (n % 64), '=']
  | [a] => [sextetChar (a.toNat / 4), sextetChar (a.toNat % 4 * 16), '=', '=']
  | [] => []

/-- The text of bytes. -/
def base64 (bytes : List UInt8) : String := String.ofList (base64Chars bytes)

end Cadence.Text
