/-!
# Doubles as exact numbers

A finite double is `± m · 2 ^ q` with natural `m` and an integer `q`. `Binary.ofFloat?` takes a
double apart, `Binary.toFloat` puts one together, and `Binary.remainder` is the remainder of a
truncated division of two such numbers, computed exactly.
-/

namespace SnippetRunner.Decimal

/-- The number `± coefficient · 2 ^ exponent`. -/
structure Binary where
  negative : Bool
  coefficient : Nat
  exponent : Int
  deriving DecidableEq, Repr

namespace Binary

/-- The exponent of the least positive double. -/
def leastExponent : Int := -1074

/-- The least coefficient of 53 bits. -/
def leastFull : Nat := 1 <<< 52

/-- What the sign of a negative double adds to its bits. -/
def signBit : Nat := 1 <<< 63

/-- The number that a double is; an infinity and a NaN are none. The leading one of a coefficient
of 53 bits is not stored, except below the least normal number. -/
def ofFloat? (x : Float) : Option Binary :=
  let bits := x.toBits.toNat
  let negative := bits / signBit == 1
  let field := bits / leastFull % 2048
  let fraction := bits % leastFull
  if field == 2047 then none
  else if field == 0 then some ⟨negative, fraction, leastExponent⟩
  else some ⟨negative, fraction + leastFull, leastExponent + (field - 1 : Nat)⟩

/-- The double `± coefficient · 2 ^ exponent`, for a number that is one. A coefficient with too
many low zero bits is shifted to the right, one too short to the left. -/
def toFloat (x : Binary) : Float :=
  if x.coefficient == 0 then (if x.negative then -0.0 else 0.0)
  else
    let excess : Int := (x.coefficient.log2 : Int) - 52
    let shift := if x.exponent + excess < leastExponent then leastExponent - x.exponent else excess
    let coefficient :=
      if shift ≥ 0 then x.coefficient >>> shift.toNat else x.coefficient <<< (-shift).toNat
    let exponent := x.exponent + shift
    let bits :=
      if coefficient < leastFull then coefficient
      else coefficient - leastFull + ((exponent - leastExponent).toNat + 1) * leastFull
    Float.ofBits (UInt64.ofNat (bits + if x.negative then signBit else 0))

/-- The remainder of the division truncated toward zero; it has the sign of the dividend. -/
def remainder (x y : Binary) : Binary :=
  let exponent := min x.exponent y.exponent
  let a := x.coefficient <<< (x.exponent - exponent).toNat
  let b := y.coefficient <<< (y.exponent - exponent).toNat
  ⟨x.negative, a % b, exponent⟩

end Binary

/-- The remainder of the division of two doubles truncated toward zero. It is exact; an infinite
dividend and a zero divisor have none, and an infinite divisor leaves the dividend. -/
def remainder (x y : Float) : Float :=
  match Binary.ofFloat? x, Binary.ofFloat? y with
  | some a, some b => if b.coefficient == 0 then 0.0 / 0.0 else (a.remainder b).toFloat
  | some _, none => if y.isNaN then y else x
  | none, _ => 0.0 / 0.0

end SnippetRunner.Decimal
