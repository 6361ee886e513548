import SnippetRunner.Declaration.Parser
import SnippetRunner.Scan.Query

/-!
# Programs

A snippet becomes a program that can be compiled (`Program.ofSnippet`):

* a text that declares a public class, or a type with a static `main`, is one as it is, and that
  type is its entry;
* any other text is put into a class of its own, and if it has no `main` into the body of one.

Lines that are imports move in front of the class. `Program.sourceLine?` leads from a line of the
program back to the line of the snippet it came from.
-/

namespace SnippetRunner

open Text Scan

/-- A snippet and the program made of it. -/
structure Program where
  /-- The submitted text. -/
  snippet : List Char
  /-- The text that is compiled. -/
  text : List Char
  /-- The name of the type that is launched. -/
  entry : List Char
  /-- The line of the snippet for each line of a text that was wrapped. -/
  origins : Option (List (Option Nat))
  /-- The package of a text that is used as it is. -/
  package : Option (List Char)

namespace Program

/-- The name of the class that a snippet is put into. -/
def defaultEntry : List Char := "TempClass".toList

/-! ## What a snippet declares -/

/-- The name of the first class declared `public`, as far as words can tell. -/
def publicClass? (snippet : List Char) : Option (List Char) := do
  let position ← findWords? ["public".toList, "class".toList] snippet
  let (_, code) ← cut? position (masked snippet)
  let (before, _) ← breakOn? "class".toList code
  identifierAt? (position + byteSize before + 5) snippet

/-- The name of the first type on the top level with a static `main`. -/
def mainType? (snippet : List Char) : Option (List Char) := do
  let _ ← findWords? ["class".toList] snippet
  let unit ← (CompilationUnit.parse snippet).toOption
  let type ← unit.types.find? fun t => t.methods.any MethodDecl.isMain
  return type.name.toList

/-- The name of the package, as far as words can tell. -/
def package? (snippet : List Char) : Option (List Char) := do
  let position ← findWords? ["package".toList] snippet
  let (_, code) ← cut? (position + 7) (masked snippet)
  if !code.contains ';' then none
  else
    let name := (code.takeWhile (· ≠ ';')).filter fun c => !isSpace c
    if (splitAtEach (· = '.') name).all isIdentifier then return name else none

/-- Whether the snippet has a `main` to be called. -/
def hasMain (snippet : List Char) : Bool :=
  (findWords? ["static".toList, "void".toList, "main".toList] snippet).isSome

/-! ## Wrapping -/

/-- Whether a line is an import. -/
def isImport (line : List Char) : Bool :=
  let trimmed := trim line
  "import ".toList.isPrefixOf trimmed && trimmed.getLast? = some ';'

/-- Lines of a program, each with the line of the snippet it comes from. -/
abbrev Lines := List (List Char × Option Nat)

/-- The lines of the snippet with their numbers. -/
def numbered (snippet : List Char) : List (List Char × Nat) :=
  (lines snippet).zipIdx 1

/-- The line of the body that a line of the snippet becomes; imports and blank lines leave an empty
one. -/
def bodyLine (indent : List Char) (line : List Char) (number : Nat) : List Char × Option Nat :=
  if isImport line || isBlank line then ([], none) else (indent ++ line, some number)

/-- The lines of the program that a snippet is wrapped into. -/
def wrapped (snippet : List Char) : Lines :=
  let numbered := numbered snippet
  let imports : Lines :=
    (numbered.filter fun (line, _) => isImport line).map fun (line, n) => (trim line, some n)
  let body (indent : List Char) : Lines :=
    numbered.map fun (line, n) => bodyLine indent line n
  let opening : Lines := [("public class ".toList ++ defaultEntry ++ [' ', '{'], none)]
  let closing : Lines := [(['}'], none)]
  if hasMain snippet then imports ++ opening ++ body [] ++ closing
  else
    imports ++ opening ++ [("    public static void main(String[] args) \x7b".toList, none)] ++
      body "        ".toList ++ [("    \x7d".toList, none)] ++ closing

/-- The text of lines, each with a break behind it. -/
def textOf (ls : Lines) : List Char := ls.flatMap fun (line, _) => line ++ ['\n']

/-- The program made of a snippet. -/
def ofSnippet (snippet : List Char) : Program :=
  match (publicClass? snippet).or (mainType? snippet) with
  | some entry => ⟨snippet, snippet, entry, none, package? snippet⟩
  | none =>
    let ls := wrapped snippet
    ⟨snippet, textOf ls, defaultEntry, some (ls.map Prod.snd), none⟩

/-! ## Views -/

/-- The line of the snippet that a line of the program comes from. Lines count from one, and an
empty text has one line. -/
def sourceLine? (p : Program) (line : Nat) : Option Nat :=
  match p.origins with
  | none => if 1 ≤ line ∧ line ≤ max 1 (lines p.snippet).length then some line else none
  | some origins => if line = 0 then none else (origins[line - 1]?).join

/-- The entry type with its package. -/
def qualifiedEntry (p : Program) : List Char :=
  match p.package with
  | some package => package ++ '.' :: p.entry
  | none => p.entry

/-- The path of the compiled entry type below the directory of classes. -/
def classFile (p : Program) : List Char :=
  let folders := (p.package.getD []).map fun c => if c = '.' then '/' else c
  (if p.package.isSome then folders ++ ['/'] else []) ++ p.entry ++ ".class".toList

/-- The name of the file that the entry type is compiled from. -/
def fileName (p : Program) : List Char := p.entry ++ ".java".toList

end Program

end SnippetRunner
