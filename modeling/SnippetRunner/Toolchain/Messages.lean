import SnippetRunner.Diagnostic
import SnippetRunner.Program

/-!
# Reading a compiler's messages

What a compiler writes is read as diagnostics of the snippet (`Messages.read`). Two layouts are
known:

* lines such as `File.java:3: error: ';' expected`, each a diagnostic of its own, between lines
  that echo the program;
* blocks between rules of dashes that open with `1. ERROR in File.java (at line 3)` and end with the
  message.

If any line opens a block, the text is read as blocks. Line numbers are those of the program that
was compiled and become those of the snippet.
-/

namespace SnippetRunner

open Text

namespace Messages

/-- The rule between two blocks. -/
def rule : List Char := List.replicate 10 '-'

/-- The number that digits at the start of a text spell, and the text behind them. Numbers end
below `2 ^ 64`. -/
def leadingNumber? (cs : List Char) : Option (Nat × List Char) :=
  let digits := cs.takeWhile Char.isDigit
  let n := Decimal.digitsValue 10 digits
  if digits.isEmpty || n ≥ UInt64.size then none else some (n, cs.drop digits.length)

/-- The text behind the first occurrence of a word. -/
def behind? (word cs : List Char) : Option (List Char) :=
  (breakOn? word cs).map fun (_, after) => after.drop word.length

/-- The position that a line opens with: the number and what follows in
`path/File.java:12: message`. -/
def position? (line : List Char) : Option (Nat × List Char) := do
  let (number, after) ← leadingNumber? (← behind? ".java:".toList line)
  let message ← afterLead? [':'] after
  return (number, message)

/-- The number in `at line 12`. -/
def atLine? (line : List Char) : Option Nat := do
  let (number, _) ← leadingNumber? (← behind? "at line ".toList line)
  return number

/-- A count of what was found, such as `3 errors` or `2 problems (2 errors)`. -/
def isSummary (line : List Char) : Bool :=
  match words line with
  | count :: noun :: _ =>
    count.all Char.isDigit &&
      ["error", "errors", "warning", "warnings", "problem", "problems"].any fun word =>
        (noun.reverse.dropWhile (· = ',')).reverse = word.toList
  | _ => false

/-- The text without a word it starts with, as often as it does. The word has a first character. -/
def dropLeads (first : Char) (others cs : List Char) : List Char :=
  match _starts : afterLead? (first :: others) cs with
  | some rest => dropLeads first others rest
  | none => cs
  termination_by cs.length
  decreasing_by
    rw [eq_append_of_afterLead? _starts]
    simp only [List.cons_append, List.length_cons, List.length_append]
    omega

/-- A message without the words that say how bad it is. -/
def messageText (cs : List Char) : List Char :=
  trim (dropLeads 'w' "arning:".toList (dropLeads 'e' "rror:".toList (trim cs)))

/-! ## Lines -/

/-- The severity of a line, if it is a message. -/
def severity? (line : List Char) : Option Severity :=
  if contains "warning:".toList line then some .warning
  else if (position? line).isSome ||
      ["error", "ERROR", "Exception", "at line"].any fun word => contains word.toList line then
    some .error
  else none

/-- The diagnostic on a trimmed line. -/
def ofLine? (p : Program) (line : List Char) : Option Diagnostic :=
  if line.isEmpty || line = rule || isSummary line then none
  else
    (severity? line).map fun severity =>
      let (number, message) : Option Nat × List Char :=
        match position? line with
        | some (number, message) => (some number, message)
        | none => (atLine? line, line)
      ⟨severity, String.ofList (messageText message), number.bind p.sourceLine?⟩

/-! ## Blocks -/

/-- The line without a number in front, as in `1. ERROR in File.java`. -/
def dropOrdinal (line : List Char) : List Char :=
  let digits := line.takeWhile Char.isDigit
  if digits.isEmpty then line else (afterLead? ". ".toList (line.drop digits.length)).getD line

/-- Whether a line opens a block. -/
def isHeader (line : List Char) : Bool :=
  ("ERROR in ".toList.isPrefixOf line || "WARNING in ".toList.isPrefixOf line) &&
    contains "(at line".toList line

/-- The line that opens a block, without its number. -/
def header? (block : List (List Char)) : Option (List Char) :=
  (block.map fun line => dropOrdinal (trim line)).find? isHeader

/-- The diagnostic in a block: the last line that says something is its message. -/
def ofBlock? (p : Program) (block : List (List Char)) : Option Diagnostic :=
  (header? block).map fun header =>
    let said := (block.reverse.map trim).find? fun line => !line.isEmpty && !isSummary line
    let severity := if "WARNING".toList.isPrefixOf header then .warning else .error
    ⟨severity, String.ofList (said.getD header), (atLine? header).bind p.sourceLine?⟩

/-- The lines between rules. -/
def blocks : List (List Char) → List (List (List Char))
  | [] => [[]]
  | line :: rest =>
    if trim line = rule then [] :: blocks rest
    else
      match blocks rest with
      | [] => [[line]]
      | block :: others => (line :: block) :: others

/-- The diagnostics in the output of a compiler for a program. -/
def read (p : Program) (output : List Char) : List Diagnostic :=
  let lines := lines output
  if (header? lines).isSome then (blocks lines).filterMap (ofBlock? p)
  else (lines.map trim).filterMap (ofLine? p)

end Messages

end SnippetRunner
