/-
The shortest decimal that reads back as a given binary floating-point number.

A finite positive number is `m · 2^q`.  The reals that round to it form an interval around it,
whose ends belong to it exactly when `m` is even.  `shortest` looks for the fewest digits with
which some decimal lies in that interval; of two candidates with the same number of digits it takes
the nearer one.  All arithmetic is on natural numbers.

* `Parts.ofFloat` — sign, significand and exponent of a finite number;
* `shortest` — the digits `d` and the exponent `e` of the decimal `d · 10^e`.
-/
namespace Cadence.Decimal

/-- A finite binary number: `(-1)^negative · significand · 2^exponent`. `atBinade` tells whether the
gap below the number is half as wide as the gap above. -/
structure Parts where
  negative : Bool
  significand : Nat
  exponent : Int
  atBinade : Bool
  deriving DecidableEq, Repr

/-- The value of the bit above the fraction, which is not written down. -/
def hiddenBit : Nat := 0x10000000000000

/-- Takes a finite number apart; `none` for infinities and for what is not a number. -/
def Parts.ofFloat (x : Float) : Option Parts :=
  let bits := x.toBits.toNat
  let negative := bits / 0x8000000000000000 == 1
  let field : Nat := bits / hiddenBit % 2048
  let fraction : Nat := bits % hiddenBit
  if field == 2047 then none
  else if field == 0 then some ⟨negative, fraction, -1074, false⟩
  else some ⟨negative, hiddenBit + fraction, Int.ofNat field - 1075, fraction == 0 && 1 < field⟩

/-- The decimal `digits · 10^exponent`. -/
structure Scientific where
  digits : Nat
  exponent : Int
  deriving DecidableEq, Repr

/-- `a · 10^e` as a fraction of natural numbers. -/
def tenFraction (a : Nat) (e : Int) : Nat × Nat :=
  if 0 ≤ e then (a * Nat.pow 10 e.toNat, 1) else (a, Nat.pow 10 (-e).toNat)

/-- `a · 2^e` as a fraction of natural numbers. -/
def twoFraction (a : Nat) (e : Int) : Nat × Nat :=
  if 0 ≤ e then (a * Nat.pow 2 e.toNat, 1) else (a, Nat.pow 2 (-e).toNat)

/-- Whether the first fraction is below the second. -/
def ltFraction (a b : Nat × Nat) : Bool := a.1 * b.2 < b.1 * a.2

/-- The interval of reals that round to a number: lower end, upper end. -/
def Parts.interval (p : Parts) : (Nat × Nat) × (Nat × Nat) :=
  let low := if p.atBinade then twoFraction (4 * p.significand - 1) (p.exponent - 2)
    else twoFraction (2 * p.significand - 1) (p.exponent - 1)
  (low, twoFraction (2 * p.significand + 1) (p.exponent - 1))

/-- Whether a fraction rounds to the number. -/
def Parts.holds (p : Parts) (f : Nat × Nat) : Bool :=
  let (low, high) := p.interval
  if p.significand % 2 == 0 then !ltFraction f low && !ltFraction high f
  else ltFraction low f && ltFraction f high

/-- The exponent of the leading decimal digit of a positive fraction, given a guess that is at most
`fuel` below it. -/
def leadingExponent (f : Nat × Nat) : Nat → Int → Int
  | 0, e => e
  | fuel + 1, e =>
    if ltFraction f (tenFraction 1 (e + 1)) then e else leadingExponent f fuel (e + 1)

/-- The distance of two fractions, as a fraction. -/
def distance (a b : Nat × Nat) : Nat × Nat :=
  let x := a.1 * b.2
  let y := b.1 * a.2
  ((x - y) + (y - x), a.2 * b.2)

/-- The multiple of `10^e` that rounds to the number, the nearer of two, if there is one: the
number lies between two neighbouring multiples, and no other can qualify before they do. -/
def Parts.onGrid (p : Parts) (e : Int) : Option Nat :=
  let exact := twoFraction p.significand p.exponent
  let unit := tenFraction 1 e
  let below := exact.1 * unit.2 / (exact.2 * unit.1)
  let isBelow := below != 0 && p.holds (tenFraction below e)
  let isAbove := p.holds (tenFraction (below + 1) e)
  if isBelow && isAbove then
    if ltFraction (distance (tenFraction (below + 1) e) exact)
        (distance exact (tenFraction below e)) then some (below + 1) else some below
  else if isBelow then some below
  else if isAbove then some (below + 1)
  else none

/-- Tries grids from coarse to fine, the leading digit having exponent `lead`. -/
def Parts.search (p : Parts) (lead : Int) : Nat → Nat → Scientific
  | 0, n => ⟨(p.onGrid (lead - n)).getD 0, lead - n⟩
  | fuel + 1, n =>
    match p.onGrid (lead - n) with
    | some d => ⟨d, lead - n⟩
    | none => p.search lead fuel (n + 1)

/-- The shortest decimal that rounds to a nonzero number. Seventeen digits always suffice. -/
def shortest (p : Parts) : Scientific :=
  let exact := twoFraction p.significand p.exponent
  let guess : Int := ((p.significand.log2 : Int) + p.exponent) * 30103 / 100000 - 2
  p.search (leadingExponent exact 6 guess) 17 0

end Cadence.Decimal
