import SnippetRunner.Text.Basic

/-!
# Screening

Before a snippet runs, its text is searched for fragments that are not allowed. The search knows
nothing of the language: a fragment counts in a comment or a literal as it does in code. The first
rule that matches decides (`screen`).
-/

namespace SnippetRunner

open Text

/-- A fragment that is not allowed. -/
structure DenyRule where
  pattern : List Char
  /-- Fragments of which one has to occur too; if there are none, the pattern alone matches. -/
  requiresAny : List (List Char)
  /-- The reason that is given. -/
  message : String
  deriving DecidableEq, Repr

namespace DenyRule

/-- Whether a text contains what the rule forbids. -/
def matchesText (rule : DenyRule) (text : List Char) : Bool :=
  contains rule.pattern text &&
    (rule.requiresAny.isEmpty || rule.requiresAny.any fun fragment => contains fragment text)

/-- The reason with the fragment that was found. -/
def violation (rule : DenyRule) : String :=
  rule.message ++ " (" ++ String.ofList rule.pattern ++ ")"

/-- The rules that hold unless others are set: no leaving, no other programs, no changes to
files. -/
def standard : List DenyRule :=
  [⟨"System.exit".toList, [], "System.exit() calls are not allowed"⟩,
    ⟨"Runtime.getRuntime".toList, [], "Runtime access is restricted"⟩,
    ⟨"ProcessBuilder".toList, [], "Process execution is not allowed"⟩,
    ⟨"java.io.File".toList, ["delete".toList, "mkdir".toList],
      "File system modifications are restricted"⟩]

end DenyRule

/-- The first rule that forbids the text. -/
def screen (rules : List DenyRule) (text : List Char) : Option DenyRule :=
  rules.find? fun rule => rule.matchesText text

end SnippetRunner
