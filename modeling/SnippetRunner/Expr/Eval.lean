import SnippetRunner.Environment
import SnippetRunner.Expr.Parser
import SnippetRunner.Text.Class
import SnippetRunner.Value.Library
import SnippetRunner.Value.Operator

/-!
# The value of an expression

Every expression has a value. What cannot be computed (an unbound name, a call that the library
does not know, a division by zero) is no error: it stands for its own spelling, and the expression
around it is computed with that text. So `"n:" + i` has the value `n:i` while `i` is unbound.

`Expr.reduce` computes an expression if it can, and `Expr.value` falls back to the spelling. Only
`+` and the branches of a conditional take an operand that cannot be computed.

An `Operand` is the text of an expression together with what it was read as, if it follows the
grammar.
-/

namespace SnippetRunner

open Text

namespace Expr

/-- The value of an integer literal; one that does not fit into 32 bits is long. -/
def intLiteral (n : Int) : Value :=
  if -0x80000000 ≤ n ∧ n < 0x80000000 then .int (Int32.ofInt n) else .long (Int64.ofInt n)

/-- The value of a literal; `null` has none. -/
def literalValue? : Literal → Option Value
  | .int n => some (intLiteral n)
  | .long n => some (.long (Int64.ofInt n))
  | .double x => some (.double x)
  | .string s => some (.text s)
  | .char c => some (.text c.toString)
  | .bool b => some (.bool b)
  | .null => none

/-- The spelling of an expression in the text it was read from. -/
def spelling (source : List Char) (e : Expr) : Value := .text (String.ofList (e.span.text source))

/-- Whether the expression is the literal `2147483648`, the one whose negation alone fits into 32
bits. -/
def isLeastMagnitude : Expr → Bool
  | literal (.int n) _ => n = 0x80000000
  | _ => false

/-- The value of an expression, if it can be computed. -/
def reduce (source : List Char) (env : Environment) : Expr → Option Value
  | literal value _ => literalValue? value
  | ident name _ => env.get? name
  | unary op e _ =>
    if op = .neg ∧ e.isLeastMagnitude then some (.int Int32.minValue)
    else (reduce source env e).bind (Value.unary op)
  | binary op a b _ =>
    match op with
    | .add =>
      Value.binary .add ((reduce source env a).getD (a.spelling source))
        ((reduce source env b).getD (b.spelling source))
    | .and =>
      match (reduce source env a).bind Value.asBool? with
      | some true => ((reduce source env b).bind Value.asBool?).map .bool
      | some false => some (.bool false)
      | none => none
    | .or =>
      match (reduce source env a).bind Value.asBool? with
      | some true => some (.bool true)
      | some false => ((reduce source env b).bind Value.asBool?).map .bool
      | none => none
    | op =>
      match reduce source env a, reduce source env b with
      | some x, some y => Value.binary op x y
      | _, _ => none
  | ternary c a b _ =>
    match (reduce source env c).bind Value.asBool? with
    | some true => some ((reduce source env a).getD (a.spelling source))
    | some false => some ((reduce source env b).getD (b.spelling source))
    | none => none
  | cast target e _ => (reduce source env e).bind (Value.cast target)
  | method receiver name args _ =>
    if args.isEmpty then (reduce source env receiver).bind (Library.call? · name) else none
  | construct typeName args _ =>
    if args.isEmpty then Library.construct? typeName.toList else none
  | call _ _ _ | field _ _ _ | index _ _ _ => none

/-- The value of an expression: what it computes to, or else its spelling. -/
def value (source : List Char) (env : Environment) (e : Expr) : Value :=
  (reduce source env e).getD (e.spelling source)

end Expr

/-- The text of an expression, trimmed, and the tree it was read as. -/
structure Operand where
  source : List Char
  tree : Option Expr

namespace Operand

/-- Reads a text as an operand. -/
def ofText (cs : List Char) : Operand :=
  let source := trim cs
  ⟨source, (Expr.parse source).toOption⟩

/-- The value of an operand; a text that is no expression stands for itself. -/
def value (operand : Operand) (env : Environment) : Value :=
  match operand.tree with
  | some e => e.value operand.source env
  | none => .text (String.ofList operand.source)

end Operand

/-- The value of the expression that a text spells. -/
def evaluate (cs : List Char) (env : Environment) : Value := (Operand.ofText cs).value env

end SnippetRunner
