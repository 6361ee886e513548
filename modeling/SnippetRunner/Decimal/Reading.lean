/-!
# Reading a decimal

`ofDigits` reads a coefficient and a power of ten as the nearest double, and `digitsValue` reads
digits in a given base. Exponents far beyond the range of doubles are cut off first, so that an
absurd exponent costs nothing.
-/

namespace SnippetRunner.Decimal

/-- The value of a digit in a base up to sixteen. -/
def digitValue (c : Char) : Nat :=
  if c.isDigit then c.toNat - '0'.toNat
  else if 'a' ≤ c && c ≤ 'f' then c.toNat - 'a'.toNat + 10
  else if 'A' ≤ c && c ≤ 'F' then c.toNat - 'A'.toNat + 10
  else 0

/-- The number that the digits spell in the base. -/
def digitsValue (base : Nat) (digits : List Char) : Nat :=
  digits.foldl (fun n c => n * base + digitValue c) 0

/-- The double nearest to `coefficient · 10 ^ exponent`. A number below `10 ^ -400` is nearer to
zero than to any other double, and one from `10 ^ 400` on is beyond all of them. -/
def ofDigits (coefficient : Nat) (exponent : Int) : Float :=
  let leading := exponent + (Nat.toDigits 10 coefficient).length
  if coefficient == 0 || leading < -400 then 0.0
  else if leading > 400 then 1.0 / 0.0
  else if exponent < 0 then Float.ofScientific coefficient true (-exponent).toNat
  else Float.ofScientific coefficient false exponent.toNat

/-- The double that `whole.fraction · 10 ^ exponent` spells. -/
def ofParts (whole fraction : List Char) (exponent : Int) : Float :=
  ofDigits (digitsValue 10 (whole ++ fraction)) (exponent - fraction.length)

/-- The integer that digits with an optional sign spell. -/
def integer? (cs : List Char) : Option Int :=
  let (negative, digits) :=
    match cs with
    | '-' :: rest => (true, rest)
    | '+' :: rest => (false, rest)
    | _ => (false, cs)
  if digits.isEmpty || !digits.all Char.isDigit then none
  else
    let n : Int := digitsValue 10 digits
    some (if negative then -n else n)

/-- The magnitude that a text spells: `inf`, `nan`, or digits with an optional point and an optional
exponent. -/
def magnitude? (cs : List Char) : Option Float :=
  let lower := cs.map Char.toLower
  if lower = "inf".toList ∨ lower = "infinity".toList then some (1.0 / 0.0)
  else if lower = "nan".toList then some (0.0 / 0.0)
  else
    let whole := lower.takeWhile Char.isDigit
    let rest := lower.drop whole.length
    let fraction := if rest.head? = some '.' then (rest.drop 1).takeWhile Char.isDigit else []
    let rest := if rest.head? = some '.' then rest.drop (fraction.length + 1) else rest
    if whole.isEmpty && fraction.isEmpty then none
    else
      match rest with
      | [] => some (ofParts whole fraction 0)
      | e :: exponent => if e = 'e' then (integer? exponent).map (ofParts whole fraction) else none

/-- The double nearest to the number that a text spells. -/
def ofText? (cs : List Char) : Option Float :=
  match cs with
  | '-' :: rest => (magnitude? rest).map (-·)
  | '+' :: rest => magnitude? rest
  | _ => magnitude? cs

end SnippetRunner.Decimal
