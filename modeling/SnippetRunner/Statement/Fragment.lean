import SnippetRunner.Scan.Query

/-!
# Cutting a body into statements

A body is cut into the texts of its top-level statements (`split`), each with the line on which it
starts. A statement ends

* at a semicolon outside of all brackets,
* at the brace that closes a block, unless the block is an initializer or the body of a lambda
  that is assigned,
* at a line break outside of all brackets, unless the statement plainly goes on (`goesOn`).

Comments are dropped, literals are kept as they are. Imports, package declarations and annotations
are no statements.
-/

namespace SnippetRunner

open Text Scan

/-- The text of one statement, and the line of its first character. -/
structure Fragment where
  text : List Char
  line : Nat
  deriving DecidableEq, Repr

namespace Fragment

/-- The word a statement starts with. -/
def keyword (f : Fragment) : List Char := f.text.takeWhile isIdentPart

/-! ## Where a statement goes on -/

/-- The words whose header waits for a body. -/
def controlWords : List String := ["for", "while", "if", "else", "do"]

/-- Whether a text is the head of a control statement without its body. -/
def awaitsBody (code : List Char) : Bool :=
  let word := code.takeWhile fun c => isLetter c || isNumber c || c = '_'
  controlWords.contains (String.ofList word) &&
    (code.getLast? = some ')' || code = "else".toList || code = "do".toList)

/-- Whether a text ends with an operator that wants something behind it. -/
def endsWithOperator (code : List Char) : Bool :=
  (beforeTail? "++".toList code).isNone && (beforeTail? "--".toList code).isNone &&
    code.getLast?.any fun c => "+-*/%=&|<>?:,.".toList.contains c

/-- The text from the first character on that is neither white space nor in a line comment at the
start of its line. -/
def skipToCode : List Char → List Char
  | [] => []
  | c :: cs =>
    if isSpace c then skipToCode cs
    else if c = '/' ∧ cs.head? = some '/' then skipToCode (cs.dropWhile (· ≠ '\n'))
    else c :: cs
  termination_by cs => cs.length
  decreasing_by
    · simp
    · have := (List.dropWhile_suffix (l := cs) (· ≠ '\n')).length_le
      simp only [List.length_cons]; omega

/-- Whether a text starts with something that belongs to the line before it: a member, or an
operator that is no increment. -/
def startsContinuation (cs : List Char) : Bool :=
  match cs with
  | [] => false
  | c :: rest =>
    c = '.' || ("+*/%?:&|".toList.contains c && !(c = '+' && rest.head? = some '+'))

/-- Whether a statement of which `read` was read goes on behind a line break. -/
def goesOn (read rest : List Char) : Bool :=
  let code := trim (masked read)
  !code.isEmpty &&
    (awaitsBody code || endsWithOperator code || startsContinuation (skipToCode rest))

/-- Whether the first block of a text is an initializer or the body of a lambda. -/
def isInitializer (read : List Char) : Bool :=
  let code := masked read
  code.contains '{' &&
    let before := trimEnd (code.takeWhile (· ≠ '{'))
    before.getLast? = some '=' || (beforeTail? "->".toList before).isSome

/-- Whether a text is no statement: an import, a package declaration or an annotation. -/
def isSkipped (text : List Char) : Bool :=
  "import ".toList.isPrefixOf text || "package ".toList.isPrefixOf text || text.head? = some '@'

/-! ## Splitting -/

/-- A statement while it is read. -/
structure Pending where
  /-- What was read of it, the last character first. -/
  read : List Char
  /-- The line of its first character. -/
  start : Nat
  /-- The line being read. -/
  line : Nat
  /-- The open parentheses and brackets. -/
  parens : Nat
  /-- The open braces. -/
  braces : Nat

namespace Pending

/-- Nothing read yet. -/
def empty (line : Nat) : Pending := ⟨[], line, line, 0, 0⟩

/-- Whether no bracket is open. -/
def isTop (p : Pending) : Bool := p.parens = 0 && p.braces = 0

/-- The text read so far. -/
def text (p : Pending) : List Char := p.read.reverse

/-- One more character. The first one that is no white space is the start of the statement. -/
def push (p : Pending) (c : Char) : Pending :=
  if isBlank p.read && !isSpace c then { p with read := [c], start := p.line }
  else { p with read := c :: p.read }

/-- A line break that does not end the statement. -/
def pushBreak (p : Pending) : Pending := { p with read := '\n' :: p.read, line := p.line + 1 }

/-- The statement read, if there is one. -/
def finish (p : Pending) : List Fragment :=
  let text := trim p.text
  if text.isEmpty || isSkipped text then [] else [⟨text, p.start⟩]

/-- The state behind the end of a statement. -/
def clear (p : Pending) : Pending := { p with read := [] }

/-- The state on the next line. -/
def nextLine (p : Pending) : Pending := { p with line := p.line + 1 }

end Pending

/-- The statements of a text behind the part of a statement already read. -/
def splitFrom (mode : Mode) (p : Pending) : List Char → List Fragment
  | [] => p.finish
  | c :: cs =>
    let (cls, mode') := mode.step c cs.head?
    if c = '\n' then
      if p.isTop && !goesOn p.text cs then p.finish ++ splitFrom mode' p.clear.nextLine cs
      else splitFrom mode' p.pushBreak cs
    else
      match cls with
      | .comment => splitFrom mode' p cs
      | .literal => splitFrom mode' (p.push c) cs
      | .code =>
        if c = '(' ∨ c = '[' then splitFrom mode' { p.push c with parens := p.parens + 1 } cs
        else if c = ')' ∨ c = ']' then splitFrom mode' { p.push c with parens := p.parens - 1 } cs
        else if c = '{' then splitFrom mode' { p.push c with braces := p.braces + 1 } cs
        else if c = '}' then
          let p' := { p.push c with braces := p.braces - 1 }
          if p'.isTop && !isInitializer p'.text then p'.finish ++ splitFrom mode' p'.clear cs
          else splitFrom mode' p' cs
        else if c = ';' ∧ p.isTop then p.finish ++ splitFrom mode' p.clear cs
        else splitFrom mode' (p.push c) cs

/-- The statements of a body that starts on the given line. -/
def split (body : List Char) (line : Nat) : List Fragment :=
  splitFrom .code (.empty line) body

/-- The statements of the body of a block or a loop: those between its braces if it has them. -/
def splitBody (body : List Char) (line : Nat) : List Fragment :=
  let trimmed := trimStart body
  let start := line + newlines (body.take (body.length - trimmed.length))
  match closing? '{' '}' trimmed with
  | some (inner, _) => split inner start
  | none => split trimmed start

/-! ## Finding the main body -/

/-- The body of the first `void main` in the code of a text, found by matching braces, and its byte
position. -/
def mainBody? (text : List Char) : Option (Nat × List Char) := do
  let position ← findWords? ["void".toList, "main".toList] text
  let (_, code) ← cut? position (masked text)
  let distance ← findChar? '{' code
  let (_, block) ← cut? (position + distance) text
  let (inner, _) ← closing? '{' '}' block
  return (position + distance + 1, inner)

/-- The line of a byte position; a position that is none counts as the first line. -/
def lineAt (text : List Char) (position : Nat) : Nat :=
  match cut? position text with
  | some (before, _) => newlines before + 1
  | none => 1

end Fragment

end SnippetRunner
