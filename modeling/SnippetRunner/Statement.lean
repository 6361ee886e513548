import SnippetRunner.Expr.Eval

/-!
# Statements

What a program consists of once its text is read. The expressions in a statement are `Operand`s, so
that a statement holds all that its text says, and running it needs the variables alone.
-/

namespace SnippetRunner

/-- A statement that works on one variable. -/
inductive Action
  /-- Declares a collection, which is empty whatever the declaration goes on with. -/
  | declareEmpty (name : String) (kind : CollectionKind)
  /-- Declares a variable of a type, with an initial value or without. -/
  | declare (name : String) (typeName : List Char) (init : Option Operand)
  /-- `name = value` -/
  | assign (name : String) (value : Operand)
  /-- `name op= value` -/
  | update (name : String) (op : BinaryOp) (value : Operand)
  /-- `name++` and `name--` -/
  | step (name : String) (delta : Int32)

/-- The variable that an action declares. -/
def Action.declares? : Action → Option String
  | declareEmpty name _ => some name
  | declare name _ _ => some name
  | _ => none

/-- A change to a collection. The arguments are expressions of the text `source`. -/
inductive Mutation
  | add (value : Expr)
  | insert (index value : Expr)
  | put (key value : Expr)

/-- A statement. -/
inductive Statement
  /-- Prints a line; without an operand an empty one. -/
  | print (value : Option Operand)
  | action (action : Action)
  /-- A change to the collection that a variable holds. -/
  | mutate (target : String) (source : List Char) (mutation : Mutation)
  | block (body : List Statement)
  /-- `for (init; condition; updates) body` on the given line. -/
  | counted (line : Nat) (init : Option Action) (condition : Option Operand)
      (updates : List Action) (body : List Statement)
  /-- `for (Type name : items) body` on the given line. -/
  | forEach (line : Nat) (name : String) (items : Operand) (body : List Statement)
  /-- `while (condition) body` on the given line. -/
  | while_ (line : Nat) (condition : Option Operand) (body : List Statement)
  /-- A statement without effect: one that is not supported, or none at all. -/
  | skip
  /-- A block whose only statement is again that block. -/
  | endless

end SnippetRunner
