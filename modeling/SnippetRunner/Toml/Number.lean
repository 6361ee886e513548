import SnippetRunner.Decimal.Reading
import SnippetRunner.Text.Class
import SnippetRunner.Toml

/-!
# Reading the numbers of TOML

`number?` reads an integer in base ten, sixteen, eight or two, or a real number. A line may stand
between two digits, and a number in base ten may have a sign, but no zero in front of other digits.

An integer has to fit into 64 bits. A real number is the double nearest to what is written; one
that is too great for every double is refused, though one that is too small is not.
-/

namespace SnippetRunner.Toml

open Text

/-- The digits of a number without the lines that may stand between two of them. -/
def ungrouped? (isDigit : Char → Bool) (cs : List Char) : Option (List Char) :=
  let groups := splitAtEach (· = '_') cs
  if groups.all fun group => !group.isEmpty && group.all isDigit then some groups.flatten else none

/-- The digits that the text starts with, at least one. -/
def digits? (isDigit : Char → Bool) (cs : List Char) : Option (List Char × List Char) :=
  let run := cs.takeWhile fun c => isDigit c || c = '_'
  (ungrouped? isDigit run).map fun digits => (digits, cs.drop run.length)

/-- The integer of the given sign and magnitude, if it has 64 bits. -/
def integerOf? (negative : Bool) (magnitude : Nat) : Option Toml :=
  if negative then if magnitude ≤ 0x8000000000000000 then some (integer (-magnitude)) else none
  else if magnitude < 0x8000000000000000 then some (integer magnitude)
  else none

/-- The real number of the given sign and magnitude. -/
def realOf (negative : Bool) (magnitude : Float) : Toml :=
  real (if negative then -magnitude else magnitude)

/-- The integer in a base that the text starts with. -/
def based? (base : Nat) (isDigit : Char → Bool) (cs : List Char) : Option (Toml × List Char) := do
  let (digits, rest) ← digits? isDigit cs
  return (← integerOf? false (Decimal.digitsValue base digits), rest)

/-- The sign that the text starts with, and whether it is a minus. -/
def signed : List Char → Bool × List Char
  | '+' :: rest => (false, rest)
  | '-' :: rest => (true, rest)
  | cs => (false, cs)

/-- The digits of the fraction that the text starts with, none if there is no point. -/
def fraction? : List Char → Option (List Char × List Char)
  | '.' :: rest => digits? Char.isDigit rest
  | cs => some ([], cs)

/-- The exponent of ten that the text starts with, if there is one. -/
def exponent? (cs : List Char) : Option (Option Int × List Char) :=
  if cs.head? = some 'e' || cs.head? = some 'E' then do
    let (negative, rest) := signed (cs.drop 1)
    let (digits, rest) ← digits? Char.isDigit rest
    let magnitude : Int := Decimal.digitsValue 10 digits
    return (some (if negative then -magnitude else magnitude), rest)
  else some (none, cs)

/-- The number in base ten that the text starts with, its sign apart. -/
def unsigned? (negative : Bool) (cs : List Char) : Option (Toml × List Char) := do
  let (whole, rest) ← digits? Char.isDigit cs
  if whole.head? = some '0' && whole.length ≠ 1 then none
  else
    let (fraction, rest) ← fraction? rest
    let (exponent, rest) ← exponent? rest
    if fraction.isEmpty && exponent.isNone then
      return (← integerOf? negative (Decimal.digitsValue 10 whole), rest)
    else
      let magnitude := Decimal.ofParts whole fraction (exponent.getD 0)
      if magnitude.isInf && !negative then none else return (realOf negative magnitude, rest)

/-- The infinity or the NaN that the text starts with, its sign apart. -/
def special? (negative : Bool) (cs : List Char) : Option (Toml × List Char) :=
  match afterLead? "inf".toList cs, afterLead? "nan".toList cs with
  | some rest, _ => some (realOf negative (1.0 / 0.0), rest)
  | none, some rest => some (realOf negative (0.0 / 0.0), rest)
  | none, none => none

/-- The number that the text starts with. -/
def number? (cs : List Char) : Option (Toml × List Char) :=
  match cs with
  | '0' :: 'x' :: rest => based? 16 isHexDigit rest
  | '0' :: 'o' :: rest => based? 8 (fun c => '0' ≤ c && c ≤ '7') rest
  | '0' :: 'b' :: rest => based? 2 (fun c => c = '0' || c = '1') rest
  | _ =>
    let (negative, rest) := signed cs
    (unsigned? negative rest).or (special? negative rest)

end SnippetRunner.Toml
