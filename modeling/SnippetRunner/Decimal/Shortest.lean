import SnippetRunner.Decimal.Binary

/-!
# The shortest decimal of a double

Among the decimals that are nearer to a double than to any other, `shortest` finds the one with the
fewest digits, and of those the nearest to the double (of two equally near the greater).

A decimal of `n` digits lies on a grid of powers of ten, and if any point of the grid reads back,
so does one of the two neighbours of the double on it. So it is enough to try these two for
`n = 1, 2, …, 17`. All arithmetic is in natural numbers: the double and the two ends of the interval
that reads back to it have one common denominator (`Cell`).
-/

namespace SnippetRunner.Decimal

/-- The decimal `coefficient · 10 ^ exponent`. -/
structure Digits where
  coefficient : Nat
  exponent : Int
  deriving DecidableEq, Repr

/-- A positive double and the interval of the numbers that round to it: the double is
`value / scale`, and the interval reaches from `low / scale` to `high / scale`. -/
structure Cell where
  low : Nat
  value : Nat
  high : Nat
  scale : Nat
  /-- Whether the ends themselves round to the double. -/
  closed : Bool

namespace Cell

/-- The cell of `coefficient · 2 ^ exponent`. Its ends are half a step away; below a power of two
the step is half as long. Ties go to the even coefficient. -/
def ofBinary (x : Binary) : Cell :=
  let step := 1 <<< x.exponent.toNat
  let value := 4 * x.coefficient * step
  let below :=
    if x.coefficient == Binary.leastFull && x.exponent > Binary.leastExponent then step
    else 2 * step
  ⟨value - below, value, value + 2 * step, 4 <<< (-x.exponent).toNat, x.coefficient % 2 == 0⟩

/-- Whether `numerator / denominator`, the scale left out of both, lies in the interval. -/
def holds (cell : Cell) (numerator denominator : Nat) : Bool :=
  let low := cell.low * denominator
  let high := cell.high * denominator
  if cell.closed then low ≤ numerator && numerator ≤ high
  else low < numerator && numerator < high

/-- The exponent `e` of the first decimal digit of the double: `10 ^ e ≤ value < 10 ^ (e + 1)`. -/
def leadingExponent (cell : Cell) : Int :=
  if cell.scale ≤ cell.value then ((Nat.toDigits 10 (cell.value / cell.scale)).length : Int) - 1
  else
    let zeros := (Nat.toDigits 10 (cell.scale / cell.value)).length - 1
    if cell.scale ≤ cell.value * Nat.pow 10 zeros then -(zeros : Int) else -(zeros + 1 : Int)

/-- The better neighbour of the double on the grid of the multiples of `10 ^ exponent`, if one of
them lies in the interval. -/
def neighbour? (cell : Cell) (exponent : Int) : Option Digits :=
  let up := Nat.pow 10 exponent.toNat
  let down := Nat.pow 10 (-exponent).toNat
  -- on this scale the double is `cell.value * down` and the grid is that of multiples of `unit`
  let unit := cell.scale * up
  let floor := cell.value * down / unit
  let excess := cell.value * down % unit
  let atFloor := cell.holds (floor * unit) down
  let atCeiling := cell.holds ((floor + 1) * unit) down
  if atFloor && (!atCeiling || 2 * excess < unit) then some ⟨floor, exponent⟩
  else if atCeiling then some ⟨floor + 1, exponent⟩
  else none

/-- The first grid with a point in the interval, from `count` grids on. -/
def search (cell : Cell) (exponent : Int) : Nat → Digits
  | 0 => ⟨0, 0⟩
  | count + 1 =>
    match cell.neighbour? exponent with
    | some digits => digits
    | none => cell.search (exponent - 1) count

end Cell

/-- The decimal without zeros at its end; `count` bounds how many are taken off. -/
def Digits.strip (digits : Digits) : Nat → Digits
  | 0 => digits
  | count + 1 =>
    if digits.coefficient % 10 == 0 && digits.coefficient != 0 then
      Digits.strip ⟨digits.coefficient / 10, digits.exponent + 1⟩ count
    else digits

/-- The shortest decimal that reads back to the magnitude of the number. Seventeen digits always
do. -/
def shortest (x : Binary) : Digits :=
  if x.coefficient == 0 then ⟨0, 0⟩
  else
    let cell := Cell.ofBinary x
    (cell.search cell.leadingExponent 18).strip 18

end SnippetRunner.Decimal
