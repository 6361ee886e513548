import SnippetRunner.Statement
import SnippetRunner.Statement.Fragment

/-!
# Reading statements

What the text of a statement means. The forms are tried in a fixed order, and the first that fits
counts: printing, loops and words that are not supported, blocks, declarations, assignments and
increments, changes to a collection. A text that fits none has no effect.

The body of a loop or a block is cut into statements in turn. Each level of this takes at least one
character away, with one exception: a brace whose closing brace is hidden, as in `{ "}`, is cut into
itself. So the length of the text bounds the depth of all other statements, and a text that exceeds
it is `endless`.
-/

namespace SnippetRunner

open Text Scan

namespace Statement

/-! ## Printing -/

/-- The text between the parentheses of a call of the printing methods, if the statement starts
with one, and whether the method is one that formats. -/
def printCall? (text : List Char) : Option (Bool × List Char) := do
  let rest ← afterLead? "System.out.".toList text
  let name := rest.takeWhile Char.isAlphanum
  let formats ←
    match String.ofList name with
    | "println" | "print" => some false
    | "printf" | "format" => some true
    | _ => none
  let (argument, _) ← closing? '(' ')' (trimStart (rest.drop name.length))
  return (formats, argument)

/-- An operand; a blank text is none. -/
def operand? (text : List Char) : Option Operand :=
  if isBlank text then none else some (.ofText text)

/-! ## Declarations and assignments -/

/-- The operator that stands in front of the `=` of an assignment. -/
def compoundOp? : Char → Option BinaryOp
  | '+' => some .add
  | '-' => some .sub
  | '*' => some .mul
  | '/' => some .div
  | '%' => some .rem
  | _ => none

/-- The position in bytes of the first `=` outside of brackets that is no part of a comparison, and
the character in front of it. -/
def findAssign (depth position : Nat) (before : Option Char) :
    List Char → Option (Nat × Option Char)
  | [] => none
  | c :: cs =>
    let next (depth : Nat) : Option (Nat × Option Char) :=
      findAssign depth (position + c.utf8Size) (some c) cs
    if isOpening c then next (depth + 1)
    else if isClosing c then next (depth - 1)
    else if c = '=' ∧ depth = 0 ∧ cs.head? ≠ some '=' ∧
        !(before.any fun b => b = '=' || b = '!' || b = '<' || b = '>') then
      some (position, before)
    else next depth

/-- The two sides of an assignment, trimmed, and the operator it goes with. -/
def splitAssignment? (text : List Char) : Option (List Char × Option BinaryOp × List Char) := do
  let (position, before) ← findAssign 0 0 none (masked text)
  let op := before.bind compoundOp?
  let (left, _) ← cut? (if op.isSome then position - 1 else position) text
  let (_, right) ← cut? (position + 1) text
  return (trim left, op, trim right)

/-- The words that no type starts with. -/
def noTypeWords : List String := ["return", "throw", "new", "yield", "case", "else"]

/-- A type without the word `final` in front of it. -/
def dropFinal (typeName : List Char) : List Char :=
  match _h : afterLead? "final ".toList typeName with
  | some rest => dropFinal (trimStart rest)
  | none => typeName
  termination_by typeName.length
  decreasing_by
    rw [eq_append_of_afterLead? _h, List.length_append]
    have h₁ := length_trimStart_le rest
    have h₂ : "final ".toList.length = 6 := by decide
    omega

/-- Whether a text can be the type of a declaration. -/
def isType (typeName : List Char) : Bool :=
  (typeName.head?.any fun c => isLetter c || c = '_') &&
    (typeName.all fun c => isIdentPart c || "<>,.[]? ".toList.contains c) &&
    typeName.getLast? ≠ some '.' &&
    !noTypeWords.contains (String.ofList ((words typeName).headD []))

/-- The type and the name that the left side of a declaration consists of. -/
def typeAndName? (left : List Char) : Option (List Char × String) :=
  let name := (left.reverse.takeWhile isIdentPart).reverse
  let typeName := dropFinal (trim (left.take (left.length - name.length)))
  if isIdentifier name && isType typeName then some (typeName, String.ofList name) else none

/-- The declaration that a text is. -/
def declaration? (text : List Char) : Option Action := do
  let (left, init) ← match splitAssignment? text with
    | some (left, none, right) => some (left, some right)
    | some (_, some _, _) => none
    | none => some (trim text, none)
  let (typeName, name) ← typeAndName? left
  match Library.collectionKind? typeName with
  | some kind => return .declareEmpty name kind
  | none => return .declare name (Library.simpleName typeName) (init.map Operand.ofText)

/-- The variable and the step of an increment. -/
def increment? (text : List Char) : Option Action := do
  let trimmed := trim text
  let plus := "++".toList
  let minus := "--".toList
  let (name, delta) ←
    ((beforeTail? plus trimmed).map fun name => (name, (1 : Int32))).or <|
    ((beforeTail? minus trimmed).map fun name => (name, (-1 : Int32))).or <|
    ((afterLead? plus trimmed).map fun name => (name, (1 : Int32))).or <|
    ((afterLead? minus trimmed).map fun name => (name, (-1 : Int32)))
  let name := trim name
  if isIdentifier name then return .step (String.ofList name) delta else none

/-- The assignment that a text is. -/
def assignment? (text : List Char) : Option Action := do
  let (left, op, right) ← splitAssignment? text
  if !isIdentifier left then none
  else
    let name := String.ofList left
    match op with
    | none => return .assign name (.ofText right)
    | some op => return .update name op (.ofText right)

/-- The action that a text is. -/
def action? (text : List Char) : Option Action :=
  (declaration? text).or ((increment? text).or (assignment? text))

/-! ## Changes to collections -/

/-- The change to a collection that a text is. -/
def mutation? (text : List Char) : Option (String × Mutation) :=
  match (Expr.parse text).toOption with
  | some (.method (.ident target _) "add" [value] _) => some (target, .add value)
  | some (.method (.ident target _) "add" [index, value] _) => some (target, .insert index value)
  | some (.method (.ident target _) "put" [key, value] _) => some (target, .put key value)
  | _ => none

/-! ## Loops -/

/-- The text between the parentheses of a loop, and the statements of its body. -/
def loopParts? (f : Fragment) : Option (List Char × List Fragment) := do
  let position ← findChar? '(' (masked f.text)
  let (before, tail) ← cut? position f.text
  let (header, body) ← closing? '(' ')' tail
  return (header, Fragment.splitBody body (f.line + newlines before + newlines header))

/-- The three clauses of a counted loop, if the header has any. -/
def clauses? (header : List Char) : Option (List Char × List Char × List Char) :=
  let clauses := splitTopLevel ';' header
  if !clauses.isEmpty && header.contains ';' then
    some (clauses.headD [], (clauses.drop 1).headD [], (clauses.drop 2).headD [])
  else none

/-- The variable and the collection of a loop over the items of a list. -/
def binding? (header : List Char) : Option (String × List Char) :=
  match splitTopLevel ':' header with
  | [binding, items] =>
    match (words binding).getLast? with
    | some name => if isIdentifier name then some (String.ofList name, items) else none
    | none => none
  | _ => none

/-! ## Dispatch -/

/-- The words that start statements without effect. -/
def unsupportedWords : List String :=
  ["if", "else", "do", "switch", "case", "default", "try", "catch", "finally", "return", "break",
   "continue", "throw", "class", "interface", "enum", "record", "assert", "synchronized"]

/-- The loop with the given header that a `for` statement is. -/
def forLoop (line : Nat) (header : List Char) (body : List Statement) : Statement :=
  match clauses? header with
  | some (init, condition, updates) =>
    .counted line (if init.isEmpty then none else action? init) (operand? condition)
      ((splitTopLevel ',' updates).filterMap action?) body
  | none =>
    match binding? header with
    | some (name, items) => .forEach line name (.ofText items) body
    | none => .skip

/-- The loop with the given header that a `while` statement is. Without a body it is the end of a
`do` statement. -/
def whileLoop (line : Nat) (header : List Char) (body : List Statement) : Statement :=
  if body.isEmpty then .skip else .while_ line (operand? header) body

/-- What a statement means that is neither a loop nor a block. -/
def readSimple (text : List Char) : Statement :=
  match action? text with
  | some a => .action a
  | none =>
    match mutation? text with
    | some (target, m) => .mutate target text m
    | none => .skip

/-- What the text of a statement means, for statements nested no deeper than `depth`. -/
def readTo : Nat → Fragment → Statement
  | 0, _ => .endless
  | depth + 1, f =>
    match printCall? f.text with
    | some (formats, argument) => if formats then .skip else .print (operand? argument)
    | none =>
      let keyword := String.ofList f.keyword
      if keyword = "for" then
        match loopParts? f with
        | some (header, body) => forLoop f.line header (body.map (readTo depth))
        | none => .skip
      else if keyword = "while" then
        match loopParts? f with
        | some (header, body) => whileLoop f.line header (body.map (readTo depth))
        | none => .skip
      else if unsupportedWords.contains keyword then .skip
      else if f.text.head? = some '{' ∧ f.text.getLast? = some '}' then
        .block ((Fragment.splitBody f.text f.line).map (readTo depth))
      else readSimple f.text

/-- What the text of a statement means. -/
def read (f : Fragment) : Statement := readTo (f.text.length + 1) f

end Statement

end SnippetRunner
