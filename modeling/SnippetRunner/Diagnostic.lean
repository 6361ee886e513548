/-!
# Diagnostics

An error or a warning about a snippet, with the line of the snippet it points at, if it is known.
-/

namespace SnippetRunner

/-- How bad a diagnostic is. -/
inductive Severity
  | error
  | warning
  deriving DecidableEq, Repr

/-- The word for a severity. -/
def Severity.label : Severity → String
  | error => "error"
  | warning => "warning"

/-- A remark on a snippet. -/
structure Diagnostic where
  severity : Severity
  message : String
  /-- The line of the submitted text. -/
  line : Option Nat
  deriving DecidableEq, Repr

namespace Diagnostic

/-- An error on a line, or on none. -/
def error (message : String) (line : Option Nat) : Diagnostic := ⟨.error, message, line⟩

/-- A warning on a line, or on none. -/
def warning (message : String) (line : Option Nat) : Diagnostic := ⟨.warning, message, line⟩

/-- Whether the diagnostic is an error. -/
def isError (d : Diagnostic) : Bool := d.severity = .error

/-- The same diagnostic as a warning. -/
def asWarning (d : Diagnostic) : Diagnostic := { d with severity := .warning }

/-- The text of a diagnostic. -/
def render (d : Diagnostic) : String :=
  match d.line with
  | some line => s!"{d.severity.label} (line {line}): " ++ d.message
  | none => d.severity.label ++ ": " ++ d.message

end Diagnostic

end SnippetRunner
