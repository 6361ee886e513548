import SnippetRunner.Text.CaseTables
import SnippetRunner.Text.Letters

/-!
# Upper and lower case

`upper` and `lower` map a text character by character, where one character may become several
(`ß` has the upper case `SS`). The one rule that looks at neighbours: a capital sigma at the end
of a word becomes `ς`, and `σ` elsewhere (`isFinal`).
-/

namespace SnippetRunner.Text

/-- The image of a code point under a table of runs. -/
def caseImage? (code : Nat) : List CaseRun → Option Nat
  | [] => none
  | (first, last, step, distance) :: rest =>
    if first ≤ code && code ≤ last && (code - first) % step == 0 then
      some ((code : Int) + distance).toNat
    else caseImage? code rest

/-- The case form of a character under a table of expansions and a table of runs. -/
def caseForm (expansions : List (Nat × List Nat)) (runs : List CaseRun) (c : Char) : List Char :=
  match expansions.lookup c.toNat with
  | some image => image.map Char.ofNat
  | none =>
    match caseImage? c.toNat runs with
    | some image => [Char.ofNat image]
    | none => [c]

/-- The upper-case form of a character. -/
def upperChar (c : Char) : List Char :=
  if c.toNat < 0x80 then [c.toUpper] else caseForm upperExpansions upperRuns c

/-- The lower-case form of a character that has no regard to its neighbours. -/
def lowerChar (c : Char) : List Char :=
  if c.toNat < 0x80 then [c.toLower] else caseForm lowerExpansions lowerRuns c

/-- Whether the first character that is not ignorable for case is a cased one. -/
def startsCased : List Char → Bool
  | [] => false
  | c :: cs => if inRanges c.toNat caseIgnorableRanges then startsCased cs
    else inRanges c.toNat casedRanges

/-- Whether a capital sigma between the reversed text before it and the text after it ends a
word. -/
def isFinal (before after : List Char) : Bool := startsCased before && !startsCased after

/-- The upper-case form of a text. -/
def upper (cs : List Char) : List Char := cs.flatMap upperChar

/-- The lower-case form of a text that follows the reversed text `before`. -/
def lowerAfter (before : List Char) : List Char → List Char
  | [] => []
  | c :: cs =>
    (if c = 'Σ' then [if isFinal before cs then 'ς' else 'σ'] else lowerChar c) ++
      lowerAfter (c :: before) cs

/-- The lower-case form of a text. -/
def lower (cs : List Char) : List Char := lowerAfter [] cs

end SnippetRunner.Text
