import SnippetRunner.Diagnostic

/-!
# Outcomes

What is reported of an execution. `Outcome.succeeded` and `Outcome.failed` make one: a success has
no error message and always some output.
-/

namespace SnippetRunner

/-- What has run a snippet. -/
inductive Tier
  /-- Nothing: the snippet was turned down. -/
  | none
  /-- A compiler and a launcher. -/
  | native
  /-- The interpreter of this library. -/
  | interpreter
  deriving DecidableEq, Repr

/-- The word for a tier. -/
def Tier.label : Tier → String
  | none => "none"
  | native => "native"
  | interpreter => "interpreter"

/-- The result of an execution. -/
structure Outcome where
  success : Bool
  output : String
  errorMessage : Option String
  diagnostics : List Diagnostic
  /-- The time it took in milliseconds. -/
  duration : Nat
  tier : Tier
  /-- Whether the interpreter stepped in for a compiler and a launcher that failed. -/
  usedFallback : Bool
  deriving DecidableEq, Repr

namespace Outcome

/-- The output of a program that printed nothing. -/
def noOutput : String := "Program executed successfully (no output)"

/-- A successful run. -/
def succeeded (output : String) (tier : Tier) : Outcome where
  success := true
  output := if output.isEmpty then noOutput else output
  errorMessage := none
  diagnostics := []
  duration := 0
  tier := tier
  usedFallback := false

/-- A failed run. -/
def failed (message : String) (diagnostics : List Diagnostic) (tier : Tier) : Outcome where
  success := false
  output := ""
  errorMessage := some message
  diagnostics := diagnostics
  duration := 0
  tier := tier
  usedFallback := false

/-- The outcome with other output. -/
def withOutput (o : Outcome) (output : String) : Outcome := { o with output := output }

/-- The outcome with more diagnostics. -/
def withDiagnostics (o : Outcome) (more : List Diagnostic) : Outcome :=
  { o with diagnostics := o.diagnostics ++ more }

/-- The outcome with the time it took. -/
def withDuration (o : Outcome) (milliseconds : Nat) : Outcome := { o with duration := milliseconds }

/-- Whether an error was found. -/
def hasErrors (o : Outcome) : Bool := o.diagnostics.any Diagnostic.isError

/-- The error message with a line for each diagnostic, if there is anything to report. -/
def report? (o : Outcome) : Option String :=
  if o.errorMessage.isNone && o.diagnostics.isEmpty then none
  else
    some <| o.diagnostics.foldl
      (fun text d => (if text.isEmpty then text else text.push '\n') ++ "• " ++ d.render)
      (o.errorMessage.getD "")

end Outcome

end SnippetRunner
