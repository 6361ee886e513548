import SnippetRunner.Decimal.Layout

/-!
# Values

The values that a program computes with. Integers have 32 or 64 bits and wrap around, collections
hold their elements by value, and a map keeps its entries in the order in which their keys first
came.

* `Value.render` is the text of a value.
* `Value.same` is the equality that keys of a map are found by. It tells the kinds of numbers apart
  and follows the rules for doubles: a NaN equals nothing, and the two zeros are equal.
* `Value.push` and `Value.put` fill a collection.
-/

namespace SnippetRunner

/-- A value. -/
inductive Value
  | int (n : Int32)
  | long (n : Int64)
  | double (x : Float)
  | bool (b : Bool)
  | text (s : String)
  | list (items : Array Value)
  | map (entries : List (Value × Value))
  deriving Inhabited

namespace Value

/-- The empty list. -/
def emptyList : Value := .list #[]

/-- The empty map. -/
def emptyMap : Value := .map []

/-- The name of the kind of a value. -/
def typeName : Value → String
  | int _ => "int"
  | long _ => "long"
  | double _ => "double"
  | bool _ => "boolean"
  | text _ => "String"
  | list _ => "List"
  | map _ => "Map"

/-! ## Views -/

/-- The value as an integer of 64 bits, if it is an integer. -/
def asLong? : Value → Option Int64
  | int n => some n.toInt64
  | long n => some n
  | _ => none

/-- The value as a double, if it is a number. -/
def asDouble? : Value → Option Float
  | int n => some n.toFloat
  | long n => some n.toFloat
  | double x => some x
  | _ => none

/-- The value as a truth value, if it is one. -/
def asBool? : Value → Option Bool
  | bool b => some b
  | _ => none

/-- Whether the value is a number. -/
def isNumeric : Value → Bool
  | int _ | long _ | double _ => true
  | _ => false

/-! ## Text -/

mutual

/-- The text of a value. -/
def render : Value → String
  | int n => String.ofList (Decimal.integer n.toInt)
  | long n => String.ofList (Decimal.integer n.toInt)
  | double x => Decimal.printed.write x
  | bool b => if b then "true" else "false"
  | text s => s
  | list items => "[" ++ renderItems items ++ "]"
  | map entries => "\x7b" ++ ", ".intercalate (renderEntries entries) ++ "\x7d"

/-- The texts of the items of a list, with commas between them. -/
def renderItems : Array Value → String
  | ⟨items⟩ => ", ".intercalate (renderAll items)

/-- The texts of several values. -/
def renderAll : List Value → List String
  | [] => []
  | v :: vs => render v :: renderAll vs

/-- The texts of the entries of a map. -/
def renderEntries : List (Value × Value) → List String
  | [] => []
  | e :: es => renderEntry e :: renderEntries es

/-- The text of an entry of a map. -/
def renderEntry : Value × Value → String
  | (key, value) => render key ++ "=" ++ render value

end

/-! ## Equality -/

/-- Equality of doubles, decided on their bits: neither is a NaN, and the bits agree or are those
of zeros. -/
def sameDouble (x y : Float) : Bool :=
  let magnitude (x : Float) : Nat := x.toBits.toNat % 0x8000000000000000
  let isNumber (x : Float) : Bool := magnitude x ≤ 0x7FF0000000000000
  isNumber x && isNumber y &&
    (x.toBits == y.toBits || (magnitude x == 0 && magnitude y == 0))

mutual

/-- Equality of values. Lists and maps are equal if their elements are, one after another. -/
def same : Value → Value → Bool
  | int a, int b => a == b
  | long a, long b => a == b
  | double a, double b => sameDouble a b
  | bool a, bool b => a == b
  | text a, text b => a == b
  | list as, list bs => sameItems as bs.toList
  | map as, map bs => sameEntries as bs
  | _, _ => false

/-- Equality of the items of two lists. -/
def sameItems : Array Value → List Value → Bool
  | ⟨as⟩, bs => sameAll as bs

/-- Equality of values one after another. -/
def sameAll : List Value → List Value → Bool
  | [], [] => true
  | a :: as, b :: bs => same a b && sameAll as bs
  | _, _ => false

/-- Equality of the entries of two maps. -/
def sameEntries : List (Value × Value) → List (Value × Value) → Bool
  | [], [] => true
  | a :: as, b :: bs => sameEntry a b && sameEntries as bs
  | _, _ => false

/-- Equality of two entries. -/
def sameEntry : Value × Value → Value × Value → Bool
  | (k, v), (k', v') => same k k' && same v v'

end

/-! ## Collections -/

/-- The list with one more item at its end; other values stay as they are. -/
def push (item : Value) : Value → Value
  | list items => list (items.push item)
  | other => other

/-- The list with an item inserted before position `i`, if there is such a position. -/
def insertAt (i : Nat) (item : Value) : Value → Value
  | list items =>
    if i ≤ items.size then list ((items.toList.take i ++ item :: items.toList.drop i).toArray)
    else list items
  | other => other

/-- The entries with `value` under `key`: in the place of the first entry with an equal key, which
keeps its key, or behind all others. -/
def putEntry (key value : Value) : List (Value × Value) → List (Value × Value)
  | [] => [(key, value)]
  | (k, v) :: rest =>
    if same k key then (k, value) :: rest else (k, v) :: putEntry key value rest

/-- The map with `value` under `key`; other values stay as they are. -/
def put (key value : Value) : Value → Value
  | map entries => map (putEntry key value entries)
  | other => other

end Value

end SnippetRunner
