import SnippetRunner.Token.Lexer

/-!
# Reading tokens by a grammar

What the grammars of expressions and of declarations share: the faults they report
(`ParseError`), and the readers of single tokens, of qualified names and of bracketed groups.

A reader takes the tokens ahead and returns what it read with the tokens behind it. `stop` is the
place of the end of the text, which is where a fault lies when no token is left.
-/

namespace SnippetRunner

/-- What a grammar asks for. -/
inductive Expectation
  | expression
  | identifier
  | colonInTernary
  | parenAfterGroup
  | parenAfterArguments
  | bracketAfterIndex
  | parenAfterConstructorType
  | openingDelimiter
  | semicolonAfterPackage
  | semicolonAfterImport
  | starInImport
  | typeDeclaration
  | braceToOpenType (name : String)
  | braceToCloseType (name : String)
  | member
  | methodBody (name : String)
  | semicolonAfterField
  | balancedInitializer
  | endOfEnum
  deriving DecidableEq, Repr

/-- The wording of a request that was not met. -/
def Expectation.message : Expectation → String
  | expression => "Expected expression"
  | identifier => "Expected identifier"
  | colonInTernary => "Expected ':' in ternary expression"
  | parenAfterGroup => "Expected ')' after parenthesized expression"
  | parenAfterArguments => "Expected ')' after arguments"
  | bracketAfterIndex => "Expected ']' after index"
  | parenAfterConstructorType => "Expected '(' after constructor type"
  | openingDelimiter => "Expected opening delimiter"
  | semicolonAfterPackage => "Expected ';' after package declaration"
  | semicolonAfterImport => "Expected ';' after import"
  | starInImport => "Expected '*' in import"
  | typeDeclaration => "Expected class, interface, enum or record"
  | braceToOpenType name => "Expected '\x7b' to open type " ++ name
  | braceToCloseType name => "Expected '\x7d' to close type " ++ name
  | member => "Expected field or method declaration"
  | methodBody name => "Expected body for method " ++ name
  | semicolonAfterField => "Expected ';' after field"
  | balancedInitializer => "Unbalanced field initializer"
  | endOfEnum => "Unterminated enum body"

/-- Why a text does not follow a grammar. -/
inductive ParseFault
  | lexical (fault : LexFault)
  /-- A request that was not met, and the token found instead, if the text did not end there. -/
  | expected (what : Expectation) (found : Option Token)
  /-- A token behind a complete expression. -/
  | trailing (found : Token)
  /-- A bracket that is not closed. -/
  | unbalanced
  /-- Deeper nesting than the reader was prepared for; it is always prepared for all tokens. -/
  | tooDeep
  deriving Repr

/-- The wording of a fault. -/
def ParseFault.message : ParseFault → String
  | lexical fault => fault.message
  | expected what found => what.message ++ ", found " ++ Token.describe? found
  | trailing found => "Unexpected " ++ found.describe ++ " after expression"
  | unbalanced => "Unbalanced delimiter"
  | tooDeep => "Nesting too deep"

/-- A fault at its place. -/
structure ParseError where
  fault : ParseFault
  span : Span
  deriving Repr

/-- The message of a parse error with its place. -/
def ParseError.message (e : ParseError) : String :=
  s!"Parse error at line {e.span.line}, column {e.span.column}: " ++ e.fault.message

/-- A text that is not made of tokens follows no grammar. -/
def ParseError.ofLexError (e : LexError) : ParseError := ⟨.lexical e.fault, e.span⟩

namespace Grammar

/-- The result of a reader, or the fault it met. -/
abbrev Parsed (α : Type) := Except ParseError α

/-- The token at the head, if there is one. -/
def tokenAt? (ts : List Lexeme) : Option Token := ts.head?.map Lexeme.token

/-- Whether the given sign stands at the head. -/
def startsWithSign (s : Sign) : List Lexeme → Bool
  | ⟨.sign s', _⟩ :: _ => s' = s
  | _ => false

/-- Whether an identifier stands at the head. -/
def startsWithIdent : List Lexeme → Bool
  | ⟨.ident _, _⟩ :: _ => true
  | _ => false

/-- The place of the head. -/
def spanAt (stop : Span) : List Lexeme → Span
  | t :: _ => t.span
  | [] => stop

/-- The fault that something else was expected at the head. -/
def expected {α : Type} (stop : Span) (what : Expectation) (ts : List Lexeme) : Parsed α :=
  .error ⟨.expected what (tokenAt? ts), spanAt stop ts⟩

/-- The fault that a reader has used up the bound it was given. -/
def tooDeep {α : Type} (stop : Span) (ts : List Lexeme) : Parsed α :=
  .error ⟨.tooDeep, spanAt stop ts⟩

/-- Reads the given sign and returns its place. -/
def sign (stop : Span) (s : Sign) (what : Expectation) (ts : List Lexeme) :
    Parsed (Span × List Lexeme) :=
  match ts with
  | ⟨.sign s', span⟩ :: rest =>
    if s' = s then .ok (span, rest) else expected stop what ts
  | _ => expected stop what ts

/-- Reads an identifier and returns its name and its place. -/
def ident (stop : Span) (ts : List Lexeme) : Parsed ((String × Span) × List Lexeme) :=
  match ts with
  | ⟨.ident name, span⟩ :: rest => .ok ((name, span), rest)
  | _ => expected stop .identifier ts

/-- Reads further parts of a qualified name, each of them a point and an identifier. -/
def qualifiers (name : String) : List Lexeme → String × List Lexeme
  | ⟨.sign .dot, _⟩ :: ⟨.ident part, _⟩ :: rest => qualifiers (name ++ "." ++ part) rest
  | ts => (name, ts)

/-- Reads identifiers with points between them. -/
def qualifiedName (stop : Span) (ts : List Lexeme) : Parsed (String × List Lexeme) := do
  let ((name, _), rest) ← ident stop ts
  return qualifiers name rest

/-- Skips to the sign that closes the given depth of open brackets; returns its place. -/
def skipToClosing (opener closer : Sign) (depth : Nat) : List Lexeme → Option (Span × List Lexeme)
  | [] => none
  | t :: rest =>
    match t.token with
    | .sign s =>
      if s = opener then skipToClosing opener closer (depth + 1) rest
      else if s = closer then
        if depth ≤ 1 then some (t.span, rest) else skipToClosing opener closer (depth - 1) rest
      else skipToClosing opener closer depth rest
    | _ => skipToClosing opener closer depth rest

/-- Skips a bracketed group. Returns the place of what is inside, which starts one column behind
the opening bracket, and the place of the closing bracket. -/
def group (stop : Span) (opener closer : Sign) (ts : List Lexeme) :
    Parsed ((Span × Span) × List Lexeme) := do
  let (openSpan, rest) ← sign stop opener .openingDelimiter ts
  match skipToClosing opener closer 1 rest with
  | some (closeSpan, rest) =>
    return ((⟨openSpan.stop, closeSpan.start, openSpan.line, openSpan.column + 1⟩, closeSpan), rest)
  | none => .error ⟨.unbalanced, openSpan⟩

end Grammar

end SnippetRunner
