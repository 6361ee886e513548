import SnippetRunner.Toml.Moment

/-!
# TOML documents

What a TOML text means: a table of named values.

A text builds its tables piece by piece, and not every piece may be added to what is there. How a
table came about decides (`Origin`), and so each table remembers it. `openTable`, `openElement` and
`assign` add a piece, or refuse to.
-/

namespace SnippetRunner

namespace Toml

/-- How a table came about. -/
inductive Origin
  /-- It has a header of its own. -/
  | header
  /-- It only stands on the way to a header. -/
  | implicit
  /-- It stands on the way to a dotted key. -/
  | dotted
  /-- It was written in one piece. -/
  | closed
  deriving DecidableEq, Repr

end Toml

/-- A TOML value. -/
inductive Toml
  | integer (n : Int)
  | real (x : Float)
  | moment (m : Toml.Moment)
  | boolean (b : Bool)
  | text (s : String)
  /-- A list; it is open if its elements are tables with headers. -/
  | array (isOpen : Bool) (items : List Toml)
  | table (origin : Toml.Origin) (entries : List (String × Toml))
  deriving Repr

namespace Toml

/-- The entries of a table, in the order they were made. -/
abbrev Entries := List (String × Toml)

/-- The value of a name. -/
def Entries.get? (name : String) (entries : Entries) : Option Toml := entries.lookup name

/-- Replaces the value of a name, or adds one. The function may refuse. -/
def Entries.alter (name : String) (f : Option Toml → Option Toml) : Entries → Option Entries
  | [] => (f none).map fun value => [(name, value)]
  | (n, value) :: rest =>
    if n = name then (f (some value)).map fun value => (n, value) :: rest
    else (alter name f rest).map ((n, value) :: ·)

/-- Changes the table that a header names by a function that may refuse. The way leads through the
last element of a list of tables, and tables that are not there are made. -/
def inTable (f : Entries → Option Entries) : List String → Entries → Option Entries
  | [], entries => f entries
  | name :: path, entries =>
    entries.alter name fun
      | none => (inTable f path []).map (table .implicit)
      | some (table .closed _) => none
      | some (table origin inner) => (inTable f path inner).map (table origin)
      | some (array true items) =>
        match items.getLast? with
        | some (table origin inner) =>
          (inTable f path inner).map fun inner =>
            array true (items.dropLast ++ [table origin inner])
        | _ => none
      | some _ => none

/-- The last name of a path, and the names before it. -/
def splitLast? (path : List String) : Option (List String × String) :=
  path.getLast?.map fun name => (path.dropLast, name)

/-- Makes the table of a header. It may stand on the way to an earlier header, but must not be
defined. -/
def openTable (path : List String) (entries : Entries) : Option Entries := do
  let (way, name) ← splitLast? path
  inTable (fun entries => Entries.alter name (fun
    | none => some (table .header [])
    | some (table .implicit inner) => some (table .header inner)
    | some _ => none) entries) way entries

/-- Adds an empty table to a list of tables. -/
def openElement (path : List String) (entries : Entries) : Option Entries := do
  let (way, name) ← splitLast? path
  inTable (fun entries => Entries.alter name (fun
    | none => some (array true [table .header []])
    | some (array true items) => some (array true (items ++ [table .header []]))
    | some _ => none) entries) way entries

/-- Gives a value to a dotted key, which must not have one. Tables on the way are made; those with a
header are out of reach, and the value must not go into one that stands on the way to a header. -/
def assign (value : Toml) : List String → Entries → Option Entries
  | [], _ => none
  | [name], entries =>
    entries.alter name fun
      | none => some value
      | some _ => none
  | name :: path, entries =>
    entries.alter name fun
      | none => (assign value path []).map (table .dotted)
      | some (table .dotted inner) => (assign value path inner).map (table .dotted)
      | some (table .implicit inner) =>
        if path.length = 1 then none else (assign value path inner).map (table .implicit)
      | some _ => none

/-- A piece of a document. -/
inductive Statement
  /-- A header: what follows goes into this table. -/
  | header (path : List String)
  /-- A header for the next element of a list of tables. -/
  | element (path : List String)
  | assignment (path : List String) (value : Toml)
  deriving Repr

/-- Adds the pieces of a document to a table, from a header on. -/
def addAll (header : List String) (entries : Entries) : List Statement → Option Entries
  | [] => some entries
  | .header path :: rest => do addAll path (← openTable path entries) rest
  | .element path :: rest => do addAll path (← openElement path entries) rest
  | .assignment path value :: rest => do
    addAll header (← inTable (assign value path) header entries) rest

/-- The table that pairs of keys and values between braces make. -/
def ofPairs (pairs : List (List String × Toml)) : Option Toml :=
  (pairs.foldlM (fun entries (path, value) => assign value path entries) []).map (table .closed)

/-- The document that pieces make. -/
def ofStatements (statements : List Statement) : Option Toml :=
  (addAll [] [] statements).map (table .header)

end Toml

end SnippetRunner
