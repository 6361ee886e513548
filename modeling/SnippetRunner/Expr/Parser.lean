import SnippetRunner.Expr
import SnippetRunner.Token.Grammar

/-!
# Reading expressions

From loosest to tightest: the conditional `? :`, the six levels of binary operators
(`BinaryOp.level`), prefix operators and casts, and what follows an operand: a member, a call, an
index.

The readers call each other, so they are given a bound on the depth of their calls. Fourteen calls
lead from an expression to what stands alone without reading a token: one for the expression, two
for each level of binary operators, one for prefix operators. Arguments add two calls, behind a
parenthesis that was read. So `depthFor`, with sixteen calls for each token, is always enough
(`Expr.parse_ne_tooDeep`).
-/

namespace SnippetRunner

open Grammar

namespace ExprParser

/-- A bound on the depth of calls for a number of tokens. -/
def depthFor (ts : List Lexeme) : Nat := 16 * (ts.length + 1)

/-- The binary operator that a sign stands for. -/
def binaryOp? : Sign → Option BinaryOp
  | .plus => some .add
  | .minus => some .sub
  | .star => some .mul
  | .slash => some .div
  | .percent => some .rem
  | .equal => some .eq
  | .notEqual => some .ne
  | .less => some .lt
  | .lessEqual => some .le
  | .greater => some .gt
  | .greaterEqual => some .ge
  | .andAnd => some .and
  | .orOr => some .or
  | _ => none

/-- The prefix operator that a sign stands for. -/
def unaryOp? : Sign → Option UnaryOp
  | .minus => some .neg
  | .plus => some .plus
  | .bang => some .not
  | _ => none

/-- The binary operator of the given level at the head. -/
def operatorAt? (level : Nat) : List Lexeme → Option (BinaryOp × List Lexeme)
  | ⟨.sign s, _⟩ :: rest =>
    match binaryOp? s with
    | some op => if op.level = level then some (op, rest) else none
    | none => none
  | _ => none

/-- The prefix operator at the head. -/
def prefixOp? : List Lexeme → Option (UnaryOp × List Lexeme)
  | ⟨.sign s, _⟩ :: rest => (unaryOp? s).map fun op => (op, rest)
  | _ => none

/-- The cast at the head: a type name in parentheses. -/
def castAt? : List Lexeme → Option (CastTarget × List Lexeme)
  | ⟨.sign .lparen, _⟩ :: ⟨.ident name, _⟩ :: ⟨.sign .rparen, _⟩ :: rest =>
    (CastTarget.ofTypeName? name).map fun target => (target, rest)
  | _ => none

/-- The literal that a token is. -/
def literal? : Token → Option Literal
  | .int n => some (.int n)
  | .long n => some (.long n)
  | .double x => some (.double x)
  | .string s => some (.string s)
  | .char c => some (.char c)
  | .keyword .trueKw => some (.bool true)
  | .keyword .falseKw => some (.bool false)
  | .keyword .nullKw => some .null
  | _ => none

mutual

/-- Reads an expression. -/
def expression (stop : Span) : Nat → List Lexeme → Parsed (Expr × List Lexeme)
  | 0, ts => tooDeep stop ts
  | depth + 1, ts => do
    let (condition, ts) ← binary stop depth 0 ts
    match ts with
    | ⟨.sign .question, _⟩ :: ts =>
      let (yes, ts) ← expression stop depth ts
      let (_, ts) ← sign stop .colon .colonInTernary ts
      let (no, ts) ← expression stop depth ts
      return (.ternary condition yes no (condition.span.through no.span), ts)
    | _ => return (condition, ts)

/-- Reads operands of the next level with operators of the given level between them. -/
def binary (stop : Span) : Nat → Nat → List Lexeme → Parsed (Expr × List Lexeme)
  | 0, _, ts => tooDeep stop ts
  | depth + 1, level, ts => do
    let (left, ts) ← operand stop depth level ts
    binaryRest stop depth level left ts

/-- Reads on behind the left operand of a level. -/
def binaryRest (stop : Span) : Nat → Nat → Expr → List Lexeme → Parsed (Expr × List Lexeme)
  | 0, _, _, ts => tooDeep stop ts
  | depth + 1, level, left, ts =>
    match operatorAt? level ts with
    | some (op, ts) => do
      let (right, ts) ← operand stop depth level ts
      binaryRest stop depth level (.binary op left right (left.span.through right.span)) ts
    | none => return (left, ts)

/-- Reads an operand of a level: an expression of the next level. -/
def operand (stop : Span) : Nat → Nat → List Lexeme → Parsed (Expr × List Lexeme)
  | 0, _, ts => tooDeep stop ts
  | depth + 1, level, ts =>
    if level < 5 then binary stop depth (level + 1) ts else unary stop depth ts

/-- Reads prefix operators and casts and their operand. -/
def unary (stop : Span) : Nat → List Lexeme → Parsed (Expr × List Lexeme)
  | 0, ts => tooDeep stop ts
  | depth + 1, ts =>
    match prefixOp? ts with
    | some (op, rest) => do
      let (e, rest) ← unary stop depth rest
      return (.unary op e ((spanAt stop ts).through e.span), rest)
    | none =>
      match castAt? ts with
      | some (target, rest) => do
        let (e, rest) ← unary stop depth rest
        return (.cast target e ((spanAt stop ts).through e.span), rest)
      | none => do
        let (e, rest) ← primary stop depth ts
        suffixes stop depth e rest

/-- Reads members, calls and indices behind an operand. -/
def suffixes (stop : Span) : Nat → Expr → List Lexeme → Parsed (Expr × List Lexeme)
  | 0, _, ts => tooDeep stop ts
  | depth + 1, e, ts =>
    match ts with
    | ⟨.sign .dot, _⟩ :: ts => do
      let ((name, nameSpan), ts) ← ident stop ts
      match ts with
      | ⟨.sign .lparen, _⟩ :: ts =>
        let ((args, closeSpan), ts) ← arguments stop depth ts
        suffixes stop depth (.method e name args (e.span.through closeSpan)) ts
      | _ => suffixes stop depth (.field e name (e.span.through nameSpan)) ts
    | ⟨.sign .lbracket, _⟩ :: ts => do
      let (position, ts) ← expression stop depth ts
      let (closeSpan, ts) ← sign stop .rbracket .bracketAfterIndex ts
      suffixes stop depth (.index e position (e.span.through closeSpan)) ts
    | _ => return (e, ts)

/-- Reads a literal, a name, a call, a group in parentheses or a construction. -/
def primary (stop : Span) : Nat → List Lexeme → Parsed (Expr × List Lexeme)
  | 0, ts => tooDeep stop ts
  | depth + 1, ts =>
    match ts with
    | ⟨.ident name, span⟩ :: ⟨.sign .lparen, _⟩ :: ts => do
      let ((args, closeSpan), ts) ← arguments stop depth ts
      return (.call name args (span.through closeSpan), ts)
    | ⟨.ident name, span⟩ :: ts => return (.ident name span, ts)
    | ⟨.sign .lparen, span⟩ :: ts => do
      let (e, ts) ← expression stop depth ts
      let (closeSpan, ts) ← sign stop .rparen .parenAfterGroup ts
      return (e.withSpan (span.through closeSpan), ts)
    | ⟨.keyword .newKw, span⟩ :: ts => construction stop depth span ts
    | ⟨token, span⟩ :: rest =>
      match literal? token with
      | some value => return (.literal value span, rest)
      | none => expected stop .expression ts
    | [] => expected stop .expression ts

/-- Reads a construction behind `new`. -/
def construction (stop : Span) : Nat → Span → List Lexeme → Parsed (Expr × List Lexeme)
  | 0, _, ts => tooDeep stop ts
  | depth + 1, start, ts => do
    let (typeName, ts) ← qualifiedName stop ts
    let ts ←
      if startsWithSign .less ts then Prod.snd <$> group stop .less .greater ts else .ok ts
    let (_, ts) ← sign stop .lparen .parenAfterConstructorType ts
    let ((args, closeSpan), ts) ← arguments stop depth ts
    return (.construct typeName args (start.through closeSpan), ts)

/-- Reads arguments behind their opening parenthesis, and the closing one; returns the place of
the latter as well. -/
def arguments (stop : Span) : Nat → List Lexeme → Parsed ((List Expr × Span) × List Lexeme)
  | 0, ts => tooDeep stop ts
  | depth + 1, ts =>
    match ts with
    | ⟨.sign .rparen, span⟩ :: ts => return (([], span), ts)
    | _ => argumentList stop depth ts

/-- Reads one or more arguments with commas between them, and the closing parenthesis. -/
def argumentList (stop : Span) : Nat → List Lexeme → Parsed ((List Expr × Span) × List Lexeme)
  | 0, ts => tooDeep stop ts
  | depth + 1, ts => do
    let (e, ts) ← expression stop depth ts
    match ts with
    | ⟨.sign .comma, _⟩ :: ts =>
      let ((es, closeSpan), ts) ← argumentList stop depth ts
      return ((e :: es, closeSpan), ts)
    | _ =>
      let (closeSpan, ts) ← sign stop .rparen .parenAfterArguments ts
      return (([e], closeSpan), ts)

end

/-- Reads all tokens as one expression. -/
def whole (tokens : Lexemes) : Parsed Expr := do
  let (e, rest) ← expression tokens.stop (depthFor tokens.list) tokens.list
  match rest with
  | [] => return e
  | t :: _ => .error ⟨.trailing t.token, t.span⟩

end ExprParser

/-- Reads a text as one expression. -/
def Expr.parse (source : List Char) : Parsed Expr :=
  match lex source with
  | .ok tokens => ExprParser.whole tokens
  | .error e => .error (.ofLexError e)

end SnippetRunner
