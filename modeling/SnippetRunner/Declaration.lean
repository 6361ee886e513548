import SnippetRunner.Span

/-!
# Declarations

The skeleton of a compilation unit: its package, its imports, and its types with their methods.
Bodies, parameters and initializers are not read; a method only knows where its body stands.

`CompilationUnit.main?` is the method a program starts with.
-/

namespace SnippetRunner

/-- The kinds of type declarations. -/
inductive TypeKind
  | classKind
  | interfaceKind
  | enumKind
  | recordKind
  deriving DecidableEq, Repr

/-- A method declaration. -/
structure MethodDecl where
  name : String
  modifiers : List String
  /-- The parameters, without their parentheses. -/
  params : Span
  /-- The body, without its braces; an abstract method has none. -/
  body : Option Span
  span : Span
  deriving DecidableEq, Repr

/-- Whether the method is declared `static`. -/
def MethodDecl.isStatic (m : MethodDecl) : Bool := m.modifiers.contains "static"

/-- Whether a program can start with the method. -/
def MethodDecl.isMain (m : MethodDecl) : Bool := m.name == "main" && m.isStatic

/-- A type declaration with its methods and the types declared inside it. -/
structure TypeDecl where
  kind : TypeKind
  name : String
  modifiers : List String
  methods : List MethodDecl
  nested : List TypeDecl
  span : Span
  deriving Repr

namespace TypeDecl

/-- Whether the type is declared `public`. -/
def isPublic (t : TypeDecl) : Bool := t.modifiers.contains "public"

mutual

/-- The first static `main` of a type: one of its own, or else the first one of its nested types.
-/
def main? : TypeDecl → Option MethodDecl
  | ⟨_, _, _, methods, nested, _⟩ => (methods.find? MethodDecl.isMain).or (firstMain? nested)

/-- The first static `main` of several types. -/
def firstMain? : List TypeDecl → Option MethodDecl
  | [] => none
  | t :: ts => (main? t).or (firstMain? ts)

end

end TypeDecl

/-- The declarations of a text. -/
structure CompilationUnit where
  package : Option String
  imports : List String
  types : List TypeDecl
  deriving Repr

/-- The method that a program starts with: the first static `main`, nested types included. -/
def CompilationUnit.main? (u : CompilationUnit) : Option MethodDecl := TypeDecl.firstMain? u.types

end SnippetRunner
