import SnippetRunner.Span

/-!
# Expressions

The tree of an expression. Every node has the span of its own spelling, parentheses around it
included, so that a node that cannot be computed is shown as it was written.
-/

namespace SnippetRunner

/-- Operators between two operands. -/
inductive BinaryOp
  | add | sub | mul | div | rem
  | eq | ne | lt | le | gt | ge
  | and | or
  deriving DecidableEq, Repr

namespace BinaryOp

/-- The spelling of an operator. -/
def symbol : BinaryOp → String
  | add => "+" | sub => "-" | mul => "*" | div => "/" | rem => "%"
  | eq => "==" | ne => "!=" | lt => "<" | le => "<=" | gt => ">" | ge => ">="
  | and => "&&" | or => "||"

/-- How tightly an operator binds; all operators of a level group to the left. -/
def level : BinaryOp → Nat
  | or => 0
  | and => 1
  | eq | ne => 2
  | lt | le | gt | ge => 3
  | add | sub => 4
  | mul | div | rem => 5

end BinaryOp

/-- Operators before an operand. -/
inductive UnaryOp
  | neg | plus | not
  deriving DecidableEq, Repr

/-- The spelling of an operator. -/
def UnaryOp.symbol : UnaryOp → String
  | neg => "-" | plus => "+" | not => "!"

/-- What a cast converts to. -/
inductive CastTarget
  /-- `int`, `short` and `byte`. -/
  | int
  | long
  /-- `double` and `float`. -/
  | floating
  deriving DecidableEq, Repr

/-- The target that a type name in a cast stands for. -/
def CastTarget.ofTypeName? : String → Option CastTarget
  | "int" | "short" | "byte" => some int
  | "long" => some long
  | "double" | "float" => some floating
  | _ => none

/-- Literal operands. -/
inductive Literal
  | int (n : Int)
  | long (n : Int)
  | double (x : Float)
  | string (s : String)
  | char (c : Char)
  | bool (b : Bool)
  | null
  deriving Repr

/-- An expression. -/
inductive Expr
  | literal (value : Literal) (span : Span)
  | ident (name : String) (span : Span)
  | unary (op : UnaryOp) (operand : Expr) (span : Span)
  | binary (op : BinaryOp) (left right : Expr) (span : Span)
  | ternary (condition yes no : Expr) (span : Span)
  | cast (target : CastTarget) (operand : Expr) (span : Span)
  /-- `name(arguments)` -/
  | call (name : String) (arguments : List Expr) (span : Span)
  /-- `receiver.name(arguments)` -/
  | method (receiver : Expr) (name : String) (arguments : List Expr) (span : Span)
  | field (receiver : Expr) (name : String) (span : Span)
  | index (array position : Expr) (span : Span)
  /-- `new Type<…>(arguments)`, the type arguments left out. -/
  | construct (typeName : String) (arguments : List Expr) (span : Span)
  deriving Repr

namespace Expr

/-- The place of an expression. -/
def span : Expr → Span
  | literal _ s | ident _ s | unary _ _ s | binary _ _ _ s | ternary _ _ _ s | cast _ _ s
  | call _ _ s | method _ _ _ s | field _ _ s | index _ _ s | construct _ _ s => s

/-- The same expression at another place. -/
def withSpan (s : Span) : Expr → Expr
  | literal v _ => literal v s
  | ident n _ => ident n s
  | unary op e _ => unary op e s
  | binary op a b _ => binary op a b s
  | ternary c a b _ => ternary c a b s
  | cast t e _ => cast t e s
  | call n args _ => call n args s
  | method r n args _ => method r n args s
  | field r n _ => field r n s
  | index a i _ => index a i s
  | construct t args _ => construct t args s

@[simp] theorem span_withSpan (s : Span) (e : Expr) : (e.withSpan s).span = s := by
  cases e <;> rfl

end Expr

end SnippetRunner
