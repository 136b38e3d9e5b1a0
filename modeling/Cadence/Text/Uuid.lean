/-
Identifiers of 128 bits.

* `uuid` — the text of an identifier that was drawn at random.
-/
import Cadence.Text.Quoted

namespace Cadence.Text

/-- A field of `width` hexadecimal digits that begins at a digit of a number. -/
def hexField (n start width : Nat) : String :=
  String.ofList (hexDigits width (n / Nat.pow 16 (32 - start - width)))

/-- The text of an identifier that was drawn at random: four bits tell that it was, two the
layout. -/
def uuid (n : Nat) : String :=
  let layout := Nat.digitChar (8 + n / Nat.pow 16 15 % 4)
  "-".intercalate [hexField n 0 8, hexField n 8 4, "4" ++ hexField n 13 3,
    String.singleton layout ++ hexField n 17 3, hexField n 20 12]

end Cadence.Text
