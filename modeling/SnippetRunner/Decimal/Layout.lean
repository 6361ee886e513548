import SnippetRunner.Decimal.Shortest

/-!
# How a double is written

`Layout.write` lays out the shortest decimal of a double by a handful of decisions: which
magnitudes are written with an exponent, whether a whole number keeps a fraction, and how an
infinity and a NaN are called. The two layouts in use are `printed`, the text of a value, and
`spelled`, which never has an exponent.
-/

namespace SnippetRunner.Decimal

/-- The decisions of a decimal format. -/
structure Layout where
  /-- Whether a number whose first digit stands at this power of ten has no exponent. -/
  positional : Int → Bool
  /-- What a whole number ends with. -/
  wholeEnding : List Char
  /-- The text of an infinity without its sign. -/
  infinity : List Char
  /-- The text of a NaN. -/
  nan : List Char

/-- The digits of a number, the most significant first. -/
def digitsOf (n : Nat) : List Char := Nat.toDigits 10 n

/-- Digits with a point after the first `count` of them; missing places are filled with zeros. -/
def withPoint (digits : List Char) (count : Int) (wholeEnding : List Char) : List Char :=
  if count ≤ 0 then '0' :: '.' :: List.replicate (-count).toNat '0' ++ digits
  else if digits.length ≤ count.toNat then
    digits ++ List.replicate (count.toNat - digits.length) '0' ++ wholeEnding
  else digits.take count.toNat ++ '.' :: digits.drop count.toNat

/-- The text of an integer. -/
def integer (n : Int) : List Char :=
  if n < 0 then '-' :: digitsOf n.natAbs else digitsOf n.natAbs

/-- A magnitude in the given layout. -/
def Layout.magnitude (layout : Layout) (number : Digits) : List Char :=
  let digits := digitsOf number.coefficient
  -- the power of ten at which the first digit stands
  let leading := number.exponent + digits.length - 1
  if number.coefficient == 0 || layout.positional leading then
    withPoint digits (leading + 1) layout.wholeEnding
  else withPoint digits 1 layout.wholeEnding ++ 'E' :: integer leading

/-- A double in the given layout. A zero has a sign, a NaN has none. -/
def Layout.write (layout : Layout) (x : Float) : String :=
  String.ofList <|
    match Binary.ofFloat? x with
    | some number =>
      (if number.negative then ['-'] else []) ++ layout.magnitude (shortest number)
    | none =>
      if x.isNaN then layout.nan else if x < 0 then '-' :: layout.infinity else layout.infinity

/-- The text of a value: an exponent below a thousandth and from ten million on, and always a
fraction. -/
def printed : Layout where
  positional leading := -3 ≤ leading && leading ≤ 6
  wholeEnding := ['.', '0']
  infinity := "Infinity".toList
  nan := "NaN".toList

/-- The text in messages: all digits, and a fraction only where there is one. -/
def spelled : Layout where
  positional _ := true
  wholeEnding := []
  infinity := "inf".toList
  nan := "NaN".toList

end SnippetRunner.Decimal
