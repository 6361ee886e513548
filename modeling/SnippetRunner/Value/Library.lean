import SnippetRunner.Text.Case
import SnippetRunner.Text.Class
import SnippetRunner.Value

/-!
# The library that programs can use

The collection types that programs may declare or construct, and the few methods without arguments
that a value answers to.
-/

namespace SnippetRunner

open Text

/-- The two kinds of collections. -/
inductive CollectionKind
  | list
  | map
  deriving DecidableEq, Repr

namespace CollectionKind

/-- The empty collection of a kind. -/
def empty : CollectionKind → Value
  | list => .emptyList
  | map => .emptyMap

end CollectionKind

namespace Library

/-- The types that stand for lists. -/
def listTypes : List String := ["List", "ArrayList", "LinkedList", "Collection", "Iterable"]

/-- The types that stand for maps. -/
def mapTypes : List String := ["Map", "HashMap", "TreeMap", "LinkedHashMap"]

/-- The types that can be constructed. -/
def constructibleTypes : List String :=
  ["ArrayList", "LinkedList", "HashMap", "TreeMap", "LinkedHashMap"]

/-- A type without its type arguments and the package in front of it. -/
def simpleName (typeName : List Char) : List Char :=
  let base := trim (typeName.takeWhile (· ≠ '<'))
  trim (base.reverse.takeWhile (· ≠ '.')).reverse

/-- The kind of collection that a type stands for, if it stands for one. -/
def collectionKind? (typeName : List Char) : Option CollectionKind :=
  let name := String.ofList (simpleName typeName)
  if listTypes.contains name then some .list
  else if mapTypes.contains name then some .map
  else none

/-- The value of a construction without arguments. -/
def construct? (typeName : List Char) : Option Value :=
  let name := simpleName typeName
  if constructibleTypes.contains (String.ofList name) then
    (collectionKind? name).map CollectionKind.empty
  else none

/-- A count as a value, if it is an integer of 32 bits. -/
def count? (n : Nat) : Option Value := if n < 0x80000000 then some (.int (Int32.ofNat n)) else none

/-- The length of a text in UTF-16 units. -/
def units16 (s : String) : Nat :=
  s.toList.foldl (fun n c => n + if c.toNat < 0x10000 then 1 else 2) 0

/-- The value of a method call without arguments. -/
def call? (receiver : Value) (name : String) : Option Value :=
  match receiver with
  | .text s =>
    if name = "toUpperCase" then some (.text (String.ofList (upper s.toList)))
    else if name = "toLowerCase" then some (.text (String.ofList (lower s.toList)))
    else if name = "length" then count? (units16 s)
    else none
  | .list items => if name = "size" ∨ name = "length" then count? items.size else none
  | .map entries => if name = "size" then count? entries.length else none
  | _ => none

end Library

end SnippetRunner
