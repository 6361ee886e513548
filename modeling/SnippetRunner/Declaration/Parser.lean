import SnippetRunner.Declaration
import SnippetRunner.Token.Grammar

/-!
# Reading declarations

A compilation unit is a package declaration, imports and types. Inside a type everything that is
no method and no type is skipped: fields up to their semicolon, initializer blocks and method
bodies by matching braces, and the constants of an enumeration up to the semicolon behind them.

Where a reader calls itself behind a bracketed group, it is given a bound on the number of calls;
each of them reads a token, so `callsFor` is always enough (`CompilationUnit.parse_ne_tooDeep`).
-/

namespace SnippetRunner

open Grammar

namespace DeclarationParser

/-- A bound on the number of calls for a number of tokens. -/
def callsFor (ts : List Lexeme) : Nat := 2 * (ts.length + 1)

/-- The identifiers that are modifiers. -/
def modifierNames : List String :=
  ["public", "protected", "private", "abstract", "final", "native", "synchronized", "transient",
   "volatile", "strictfp", "default", "sealed"]

/-- Reads modifiers and annotations; annotations are dropped. -/
def modifiers (stop : Span) : Nat → List Lexeme → Parsed (List String × List Lexeme)
  | 0, ts => tooDeep stop ts
  | calls + 1, ts =>
    match ts with
    | ⟨.sign .atSign, _⟩ :: ⟨.keyword .interfaceKw, _⟩ :: _ => return ([], ts)
    | ⟨.sign .atSign, _⟩ :: ts => do
      let (_, ts) ← qualifiedName stop ts
      let ts ←
        if startsWithSign .lparen ts then Prod.snd <$> group stop .lparen .rparen ts else .ok ts
      modifiers stop calls ts
    | ⟨.keyword .staticKw, _⟩ :: ts => do
      let (names, ts) ← modifiers stop calls ts
      return ("static" :: names, ts)
    | ⟨.ident name, _⟩ :: rest =>
      if modifierNames.contains name then do
        let (names, rest) ← modifiers stop calls rest
        return (name :: names, rest)
      else return ([], ts)
    | _ => return ([], ts)

/-- The kind of type that a declaration at the head declares, and the tokens behind its word.
`record` is such a word only before a name. -/
def typeKind? : List Lexeme → Option (TypeKind × List Lexeme)
  | ⟨.keyword .classKw, _⟩ :: ts => some (.classKind, ts)
  | ⟨.keyword .interfaceKw, _⟩ :: ts => some (.interfaceKind, ts)
  | ⟨.keyword .enumKw, _⟩ :: ts => some (.enumKind, ts)
  | ⟨.sign .atSign, _⟩ :: ⟨.keyword .interfaceKw, _⟩ :: ts => some (.interfaceKind, ts)
  | ⟨.ident "record", _⟩ :: ⟨.ident name, span⟩ :: ts =>
    some (.recordKind, ⟨.ident name, span⟩ :: ts)
  | _ => none

/-- Skips the constants of an enumeration, up to the semicolon behind them or the brace that closes
the type. -/
def skipConstants (stop : Span) (depth : Nat) : List Lexeme → Parsed (List Lexeme)
  | [] => expected stop .endOfEnum []
  | ⟨.sign s, span⟩ :: ts =>
    match s with
    | .lbrace | .lparen => skipConstants stop (depth + 1) ts
    | .rbrace =>
      if depth = 0 then .ok (⟨.sign s, span⟩ :: ts) else skipConstants stop (depth - 1) ts
    | .rparen => skipConstants stop (depth - 1) ts
    | .semicolon => if depth = 0 then .ok ts else skipConstants stop depth ts
    | _ => skipConstants stop depth ts
  | _ :: ts => skipConstants stop depth ts

/-- Skips an initializer and the semicolon behind it. -/
def skipInitializer (stop : Span) (depth : Nat) : List Lexeme → Parsed (List Lexeme)
  | [] => expected stop .semicolonAfterField []
  | ⟨.sign s, span⟩ :: ts =>
    match s with
    | .lbrace | .lparen | .lbracket => skipInitializer stop (depth + 1) ts
    | .rbrace | .rparen | .rbracket =>
      if depth = 0 then expected stop .balancedInitializer (⟨.sign s, span⟩ :: ts)
      else skipInitializer stop (depth - 1) ts
    | .semicolon => if depth = 0 then .ok ts else skipInitializer stop depth ts
    | _ => skipInitializer stop depth ts
  | _ :: ts => skipInitializer stop depth ts

/-- Reads what follows the parameters of a method up to its body or the semicolon instead of one.
Returns the place of the body and that of the last token. -/
def methodEnd (stop : Span) (name : String) :
    List Lexeme → Parsed ((Option Span × Span) × List Lexeme)
  | ⟨.sign .lbrace, span⟩ :: ts => do
    let ((body, closeSpan), ts) ← group stop .lbrace .rbrace (⟨.sign .lbrace, span⟩ :: ts)
    return ((some body, closeSpan), ts)
  | ⟨.sign .semicolon, span⟩ :: ts => return ((none, span), ts)
  | ⟨.sign .rbrace, span⟩ :: ts => expected stop (.methodBody name) (⟨.sign .rbrace, span⟩ :: ts)
  | _ :: ts => methodEnd stop name ts
  | [] => expected stop (.methodBody name) []

/-- Reads a field or a method behind its modifiers; a field leaves nothing. -/
def member (stop : Span) (mods : List String) (start : Span) :
    Nat → List Lexeme → Parsed (Option MethodDecl × List Lexeme)
  | 0, ts => tooDeep stop ts
  | calls + 1, ts =>
    match ts with
    | ⟨.ident name, _⟩ :: ⟨.sign .lparen, span⟩ :: ts => do
      let ((params, _), ts) ← group stop .lparen .rparen (⟨.sign .lparen, span⟩ :: ts)
      let ((body, last), ts) ← methodEnd stop name ts
      return (some ⟨name, mods, params, body, start.through last⟩, ts)
    | ⟨.sign .less, _⟩ :: _ => do
      let (_, ts) ← group stop .less .greater ts
      member stop mods start calls ts
    | ⟨.sign .semicolon, _⟩ :: ts => return (none, ts)
    | ⟨.sign .assign, _⟩ :: _ => do
      let ts ← skipInitializer stop 0 ts
      return (none, ts)
    | ⟨.sign .rbrace, _⟩ :: _ => expected stop .member ts
    | ⟨.sign .lbrace, _⟩ :: _ => expected stop .member ts
    | [] => expected stop .member ts
    | _ :: ts => member stop mods start calls ts

/-- Skips what stands between the name of a type and its opening brace. -/
def skipHeader (stop : Span) (name : String) (ts : List Lexeme) : Parsed (List Lexeme) :=
  match ts.dropWhile fun t => !startsWithSign .lbrace [t] with
  | [] => expected stop (.braceToOpenType name) []
  | _ :: ts => .ok ts

mutual

/-- Reads a type declaration behind its modifiers. -/
def typeDeclaration (stop : Span) :
    Nat → List String → Span → List Lexeme → Parsed (TypeDecl × List Lexeme)
  | 0, _, _, ts => tooDeep stop ts
  | calls + 1, mods, start, ts =>
    match typeKind? ts with
    | none => expected stop .typeDeclaration ts
    | some (kind, ts) => do
      let ((name, _), ts) ← ident stop ts
      let ts ← skipHeader stop name ts
      let ts ← if kind = .enumKind then skipConstants stop 0 ts else .ok ts
      let ((methods, nested, closeSpan), ts) ← members stop calls name ts
      return (⟨kind, name, mods, methods, nested, start.through closeSpan⟩, ts)

/-- Reads the members of a type and its closing brace: the methods, the nested types and the place
of the brace. -/
def members (stop : Span) : Nat → String → List Lexeme →
    Parsed ((List MethodDecl × List TypeDecl × Span) × List Lexeme)
  | 0, _, ts => tooDeep stop ts
  | calls + 1, name, ts =>
    match ts with
    | [] => expected stop (.braceToCloseType name) ts
    | ⟨.sign .rbrace, span⟩ :: ts => return (([], [], span), ts)
    | ⟨.sign .semicolon, _⟩ :: ts => members stop calls name ts
    | ⟨.sign .lbrace, _⟩ :: _ => do
      let (_, ts) ← group stop .lbrace .rbrace ts
      members stop calls name ts
    | ⟨.keyword .staticKw, _⟩ :: ⟨.sign .lbrace, span⟩ :: ts => do
      let (_, ts) ← group stop .lbrace .rbrace (⟨.sign .lbrace, span⟩ :: ts)
      members stop calls name ts
    | _ => do
      let start := spanAt stop ts
      let (mods, ts) ← modifiers stop (callsFor ts) ts
      if (typeKind? ts).isSome then
        let (t, ts) ← typeDeclaration stop calls mods start ts
        let ((methods, nested, closeSpan), ts) ← members stop calls name ts
        return ((methods, t :: nested, closeSpan), ts)
      else
        let (method?, ts) ← member stop mods start (callsFor ts) ts
        let ((methods, nested, closeSpan), ts) ← members stop calls name ts
        return ((method?.toList ++ methods, nested, closeSpan), ts)

end

/-- Reads the package declaration, if there is one. -/
def package (stop : Span) (ts : List Lexeme) : Parsed (Option String × List Lexeme) :=
  match ts with
  | ⟨.keyword .packageKw, _⟩ :: ts => do
    let (name, ts) ← qualifiedName stop ts
    let (_, ts) ← sign stop .semicolon .semicolonAfterPackage ts
    return (some name, ts)
  | _ => return (none, ts)

/-- Reads one import behind its word. -/
def importName (stop : Span) (ts : List Lexeme) : Parsed (String × List Lexeme) := do
  let ts := match ts with
    | ⟨.keyword .staticKw, _⟩ :: ts => ts
    | _ => ts
  let (name, ts) ← qualifiedName stop ts
  let (name, ts) ← match ts with
    | ⟨.sign .dot, _⟩ :: ts => do
      let (_, ts) ← sign stop .star .starInImport ts
      .ok (name ++ ".*", ts)
    | _ => .ok (name, ts)
  let (_, ts) ← sign stop .semicolon .semicolonAfterImport ts
  return (name, ts)

/-- Reads imports. -/
def imports (stop : Span) : Nat → List Lexeme → Parsed (List String × List Lexeme)
  | 0, ts => tooDeep stop ts
  | calls + 1, ts =>
    match ts with
    | ⟨.keyword .importKw, _⟩ :: ts => do
      let (name, ts) ← importName stop ts
      let (names, ts) ← imports stop calls ts
      return (name :: names, ts)
    | _ => return ([], ts)

/-- Reads types up to the end of the text. -/
def types (stop : Span) : Nat → List Lexeme → Parsed (List TypeDecl)
  | 0, ts => tooDeep stop ts
  | calls + 1, ts =>
    match ts with
    | [] => return []
    | ⟨.sign .semicolon, _⟩ :: ts => types stop calls ts
    | _ => do
      let start := spanAt stop ts
      let (mods, ts) ← modifiers stop (callsFor ts) ts
      let (t, ts) ← typeDeclaration stop (callsFor ts) mods start ts
      let ts ← types stop calls ts
      return t :: ts

/-- Reads all tokens as one compilation unit. -/
def whole (tokens : Lexemes) : Parsed CompilationUnit := do
  let (package, ts) ← package tokens.stop tokens.list
  let (imports, ts) ← imports tokens.stop (callsFor ts) ts
  let types ← types tokens.stop (callsFor ts) ts
  return ⟨package, imports, types⟩

end DeclarationParser

/-- Reads a text as one compilation unit. -/
def CompilationUnit.parse (source : List Char) : Parsed CompilationUnit :=
  match lex source with
  | .ok tokens => DeclarationParser.whole tokens
  | .error e => .error (.ofLexError e)

end SnippetRunner
