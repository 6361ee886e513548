import SnippetRunner.Scan
import SnippetRunner.Text.Class

/-!
# Finding things in code

Searches that see only the code of a text, not its literals and comments:

* `closing?` finds the delimiter that closes the one a text starts with;
* `splitTopLevel` cuts at a separator that stands outside all brackets;
* `findWords?` finds a sequence of whole words;
* `identifierIn?` reads the identifier a text starts with.
-/

namespace SnippetRunner.Scan

open Text

/-! ## Delimiters -/

/-- Reads up to the delimiter that brings the depth of open delimiters down to zero: the text
before it, and the text from it on. -/
def closeFrom (opener closer : Char) (depth : Nat) (mode : Mode) :
    List Char → Option (List Char × List Char)
  | [] => none
  | c :: cs =>
    let (cls, mode') := mode.step c cs.head?
    let next (depth : Nat) : Option (List Char × List Char) :=
      (closeFrom opener closer depth mode' cs).map fun (before, after) => (c :: before, after)
    if cls = .code ∧ c = opener then next (depth + 1)
    else if cls = .code ∧ c = closer then
      if depth = 1 then some ([], c :: cs) else next (depth - 1)
    else next depth

/-- For a text that starts with the opening delimiter: what stands between it and the delimiter
that closes it, and what follows that one. -/
def closing? (opener closer : Char) (cs : List Char) : Option (List Char × List Char) :=
  if cs.head? = some opener then
    (closeFrom opener closer 0 .code cs).map fun (before, after) => (before.tail, after.tail)
  else none

/-- The position in bytes of the delimiter that closes the one at byte `start`. -/
def findClosing? (opener closer : Char) (start : Nat) (cs : List Char) : Option Nat :=
  match cut? start cs with
  | some (_, tail) =>
    (closing? opener closer tail).map fun (inner, _) => start + opener.utf8Size + byteSize inner
  | none => none

/-- Whether the character opens a bracket of any kind. -/
def isOpening (c : Char) : Bool := c = '(' || c = '[' || c = '{'

/-- Whether the character closes a bracket of any kind. -/
def isClosing (c : Char) : Bool := c = ')' || c = ']' || c = '}'

/-- The parts of a classified text between the separators in code at depth zero. A closing bracket
without an opening one leaves the depth at zero. -/
def segments (separator : Char) (depth : Nat) : List (Char × CharClass) → List (List Char)
  | [] => [[]]
  | (c, cls) :: rest =>
    if cls = .code ∧ isOpening c then consPart c (segments separator (depth + 1) rest)
    else if cls = .code ∧ isClosing c then consPart c (segments separator (depth - 1) rest)
    else if cls = .code ∧ c = separator ∧ depth = 0 then [] :: segments separator depth rest
    else consPart c (segments separator depth rest)

/-- Parts without the last one, if that is empty. -/
def dropEmptyLast : List (List Char) → List (List Char)
  | [] => []
  | [part] => if part.isEmpty then [] else [part]
  | part :: parts => part :: dropEmptyLast parts

/-- The text cut at every separator outside of brackets. Parts are trimmed, and an empty last part
is left out. -/
def splitTopLevel (separator : Char) (cs : List Char) : List (List Char) :=
  dropEmptyLast ((segments separator 0 (classify .code cs)).map trim)

/-! ## Words -/

/-- Whether no identifier goes on at the head of the text. -/
def endsWord : List Char → Bool
  | [] => true
  | c :: _ => !isIdentPart c

/-- Whether the text starts with the words, each of them whole at its end, with white space and
nothing else between them. -/
def startsWithWords : List (List Char) → List Char → Bool
  | [], _ => true
  | word :: rest, cs =>
    match afterLead? word cs with
    | none => false
    | some tail =>
      endsWord tail &&
        (rest.isEmpty || (tail.head?.any isSpace && startsWithWords rest (trimStart tail)))

/-- Searches for the words from a byte position on. `before` is the character before the text; the
first `skip` characters are no place to start. A place that holds the first word but fails
otherwise is passed over as a whole. -/
def findWordsFrom (words : List (List Char)) (skip position : Nat) (before : Option Char) :
    List Char → Option Nat
  | [] => none
  | c :: cs =>
    let next (skip : Nat) : Option Nat :=
      findWordsFrom words skip (position + c.utf8Size) (some c) cs
    let first := words.headD []
    if skip > 0 then next (skip - 1)
    else if first.isPrefixOf (c :: cs) then
      if !before.any isIdentPart && startsWithWords words (c :: cs) then some position
      else next (first.length - 1)
    else next 0

/-- The first byte position at which the code of the text has the words in order, each a whole
word, with only white space between them. -/
def findWords? (words : List (List Char)) (cs : List Char) : Option Nat :=
  if words.isEmpty then none else findWordsFrom words 0 0 none (masked cs)

/-- The position in bytes of the first occurrence of a character. -/
def findChar? (c : Char) : List Char → Option Nat
  | [] => none
  | d :: cs => if d = c then some 0 else (findChar? c cs).map (· + d.utf8Size)

/-- The identifier at the head of a text, behind white space. -/
def identifierIn? (cs : List Char) : Option (List Char) :=
  let name := (trimStart cs).takeWhile isIdentPart
  if name.head?.any isIdentStart then some name else none

/-- The identifier at a byte position, behind white space. -/
def identifierAt? (position : Nat) (cs : List Char) : Option (List Char) :=
  match cut? position cs with
  | some (_, tail) => identifierIn? tail
  | none => none

end SnippetRunner.Scan
