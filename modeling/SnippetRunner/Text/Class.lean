import SnippetRunner.Text.Basic
import SnippetRunner.Text.Letters

/-!
# Classes of characters

White space is the Unicode property `White_Space`, a letter has the property `Alphabetic`, and a
digit of any script counts as a number. Identifiers are made of letters, numbers, `_` and `$`, and
do not start with a number.
-/

namespace SnippetRunner.Text

/-- White space: the Unicode property `White_Space`. -/
def isSpace (c : Char) : Bool :=
  let n := c.toNat
  (0x09 ≤ n && n ≤ 0x0D) || n == 0x20 || n == 0x85 || n == 0xA0 || n == 0x1680 ||
    (0x2000 ≤ n && n ≤ 0x200A) || n == 0x2028 || n == 0x2029 || n == 0x202F || n == 0x205F ||
    n == 0x3000

/-- A letter of any script. -/
def isLetter (c : Char) : Bool :=
  if c.toNat < 0x80 then c.isAlpha else inRanges c.toNat alphabeticRanges

/-- A digit or another number of any script. -/
def isNumber (c : Char) : Bool :=
  if c.toNat < 0x80 then c.isDigit else inRanges c.toNat numericRanges

/-- A character that may stand inside an identifier. -/
def isIdentPart (c : Char) : Bool := isLetter c || isNumber c || c = '_' || c = '$'

/-- A character that may start an identifier. -/
def isIdentStart (c : Char) : Bool := isLetter c || c = '_' || c = '$'

theorem isIdentPart_of_isIdentStart {c : Char} (h : isIdentStart c = true) :
    isIdentPart c = true := by
  simp only [isIdentStart, isIdentPart, Bool.or_eq_true] at h ⊢
  rcases h with (h | h) | h <;> simp [h]

/-- A hexadecimal digit. -/
def isHexDigit (c : Char) : Bool :=
  c.isDigit || ('a' ≤ c && c ≤ 'f') || ('A' ≤ c && c ≤ 'F')

/-! ## Trimming -/

/-- The text without the white space it starts with. -/
def trimStart (cs : List Char) : List Char := cs.dropWhile isSpace

/-- The text without the white space it ends with. -/
def trimEnd : List Char → List Char
  | [] => []
  | c :: cs =>
    match trimEnd cs with
    | [] => if isSpace c then [] else [c]
    | rest => c :: rest

/-- The text without white space at either end. -/
def trim (cs : List Char) : List Char := trimEnd (trimStart cs)

/-- Whether the text is empty or white space only. -/
def isBlank (cs : List Char) : Bool := cs.all isSpace

/-- The parts of the text between white space, none of them empty. -/
def words (cs : List Char) : List (List Char) :=
  (splitAtEach isSpace cs).filter fun word => !word.isEmpty

theorem length_trimStart_le (cs : List Char) : (trimStart cs).length ≤ cs.length :=
  (List.dropWhile_suffix _).length_le

/-- Whether the whole text is one identifier. -/
def isIdentifier : List Char → Bool
  | [] => false
  | c :: cs => isIdentStart c && cs.all isIdentPart

end SnippetRunner.Text
