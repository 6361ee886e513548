import SnippetRunner.Decimal.Binary
import SnippetRunner.Expr
import SnippetRunner.Value

/-!
# Operators on values

An operator that is not defined for its operands gives nothing.

* Two integers of 32 bits are computed in 32 bits, two integers of which one has 64 in 64 bits,
  and as soon as a double takes part both operands become doubles.
* Division truncates toward zero; nothing is divided by zero, not even a double.
* `+` puts the texts of any other two operands one behind the other.
-/

namespace SnippetRunner

namespace Value

/-- Arithmetic of 32 bits. -/
def arithmetic32 (op : BinaryOp) (a b : Int32) : Option Int32 :=
  match op with
  | .add => some (a + b)
  | .sub => some (a - b)
  | .mul => some (a * b)
  | .div => if b = 0 then none else some (a / b)
  | .rem => if b = 0 then none else some (a % b)
  | _ => none

/-- Arithmetic of 64 bits. -/
def arithmetic64 (op : BinaryOp) (a b : Int64) : Option Int64 :=
  match op with
  | .add => some (a + b)
  | .sub => some (a - b)
  | .mul => some (a * b)
  | .div => if b = 0 then none else some (a / b)
  | .rem => if b = 0 then none else some (a % b)
  | _ => none

/-- Arithmetic of doubles. -/
def arithmeticDouble (op : BinaryOp) (a b : Float) : Option Float :=
  match op with
  | .add => some (a + b)
  | .sub => some (a - b)
  | .mul => some (a * b)
  | .div => if b == 0.0 then none else some (a / b)
  | .rem => if b == 0.0 then none else some (Decimal.remainder a b)
  | _ => none

/-- The arithmetic operators, and `+` on everything. -/
def arithmetic (op : BinaryOp) (left right : Value) : Option Value :=
  match left, right with
  | .int a, .int b => (arithmetic32 op a b).map .int
  | _, _ =>
    match left.asLong?, right.asLong? with
    | some a, some b => (arithmetic64 op a b).map .long
    | _, _ =>
      match left.asDouble?, right.asDouble? with
      | some a, some b => (arithmeticDouble op a b).map .double
      | _, _ => if op = .add then some (.text (left.render ++ right.render)) else none

/-- Equality as `==` has it: of two numbers by value, of two truth values and of two texts. -/
def equals? (left right : Value) : Option Bool :=
  match left.asLong?, right.asLong? with
  | some a, some b => some (a == b)
  | _, _ =>
    match left.asDouble?, right.asDouble? with
    | some a, some b => some (a == b)
    | _, _ =>
      match left, right with
      | .bool a, .bool b => some (a == b)
      | .text a, .text b => some (a == b)
      | _, _ => none

/-- The order of two numbers; a NaN has none. -/
def compare? (left right : Value) : Option Ordering :=
  match left.asLong?, right.asLong? with
  | some a, some b => some (if a < b then .lt else if a = b then .eq else .gt)
  | _, _ =>
    match left.asDouble?, right.asDouble? with
    | some a, some b =>
      if a < b then some .lt else if a == b then some .eq else if b < a then some .gt else none
    | _, _ => none

/-- The value of a binary operator. `&&` and `||` do not ask for their right operand where the left
one decides. -/
def binary (op : BinaryOp) (left right : Value) : Option Value :=
  match op with
  | .add | .sub | .mul | .div | .rem => arithmetic op left right
  | .eq => (equals? left right).map .bool
  | .ne => (equals? left right).map fun e => .bool !e
  | .lt => (compare? left right).map fun o => .bool (o == .lt)
  | .le => (compare? left right).map fun o => .bool (o != .gt)
  | .gt => (compare? left right).map fun o => .bool (o == .gt)
  | .ge => (compare? left right).map fun o => .bool (o != .lt)
  | .and =>
    match left.asBool? with
    | some true => right.asBool?.map .bool
    | some false => some (.bool false)
    | none => none
  | .or =>
    match left.asBool? with
    | some true => some (.bool true)
    | some false => right.asBool?.map .bool
    | none => none

/-- The value of a prefix operator. -/
def unary (op : UnaryOp) (operand : Value) : Option Value :=
  match op, operand with
  | .neg, .int n => some (.int (-n))
  | .neg, .long n => some (.long (-n))
  | .neg, .double x => some (.double (-x))
  | .plus, v => if v.isNumeric then some v else none
  | .not, .bool b => some (.bool !b)
  | _, _ => none

/-- The value of a cast. A double loses its fraction and is kept within the range of the target, an
integer loses its high bits. -/
def cast (target : CastTarget) (operand : Value) : Option Value :=
  match target, operand with
  | .int, .double x => some (.int x.toInt32)
  | .int, v => v.asLong?.map fun n => .int n.toInt32
  | .long, .double x => some (.long x.toInt64)
  | .long, v => v.asLong?.map .long
  | .floating, v => v.asDouble?.map .double

/-- What is stored when `value` is assigned to a variable that holds `current`. A narrower number
is widened; with `narrow`, as in `x += 1.5`, a wider one is cast. -/
def assigned (current value : Value) (narrow : Bool) : Value :=
  match current, value with
  | .long _, .int n => .long n.toInt64
  | .double _, .int n => .double n.toFloat
  | .double _, .long n => .double n.toFloat
  | .int _, .long n => if narrow then .int n.toInt32 else .long n
  | .int _, .double x => if narrow then .int x.toInt32 else .double x
  | .long _, .double x => if narrow then .long x.toInt64 else .double x
  | _, _ => value

/-- What is stored when a variable of the given type is declared with `value`. -/
def declared (typeName : List Char) (value : Value) : Value :=
  let name := String.ofList typeName
  match value with
  | .int n =>
    if ["double", "float", "Double", "Float"].contains name then .double n.toFloat
    else if ["long", "Long"].contains name then .long n.toInt64
    else .int n
  | .long n =>
    if ["double", "float", "Double", "Float"].contains name then .double n.toFloat else .long n
  | _ => value

end Value

end SnippetRunner
