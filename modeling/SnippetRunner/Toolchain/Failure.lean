import SnippetRunner.Files
import SnippetRunner.Outcome
import SnippetRunner.Run.Stop
import SnippetRunner.Text.Class

/-!
# How a program ends, and why a native run fails

`Ending` is what becomes of a program that is to be started, and `Failure` why compiling and
launching a snippet came to nothing.
-/

namespace SnippetRunner

open Text

/-- What a program wrote. -/
structure Streams where
  output : String
  errors : String
  deriving DecidableEq, Repr

namespace Streams

/-- A program that wrote nothing. -/
def silent : Streams := ⟨"", ""⟩

/-- Both streams as one text; errors that are blank are left out. -/
def combined (s : Streams) : String :=
  if isBlank s.errors.toList then s.output else s.output ++ "\nErrors:\n" ++ s.errors

end Streams

/-- What becomes of a program that is to be started. Whether it ended in time is what the one who
waits for it reports: it looks at the program every few milliseconds, and a program that ends
between its deadline and the next look has ended in time. These looks are no part of the model. -/
inductive Ending
  /-- It cannot be started. -/
  | refused (reason : SystemError)
  /-- It was still running at the first look behind its deadline, and was killed. -/
  | overdue (streams : Streams)
  /-- It ended with a status before such a look; there is none if it was killed. -/
  | exited (status : Option Nat) (streams : Streams)
  deriving DecidableEq, Repr

/-- The text of a status. -/
def statusText : Option Nat → String
  | some n => s!"{n}"
  | none => "unknown"

/-- Why a native run came to nothing. -/
inductive Failure
  /-- The snippet is out of balance, and no compiler was started. -/
  | unbalanced (message : String) (line : Option Nat)
  | compilerUnavailable (compiler : String) (reason : SystemError)
  /-- The compiler did not accept the program. -/
  | rejected (diagnostics : List Diagnostic)
  /-- The compiler accepted the program, and there is no class of it. -/
  | nothingCompiled
  /-- The program was still running when its time, in milliseconds, was over. -/
  | overdue (limit : Nat) (output : String)
  /-- The program ran, and failed. -/
  | crashed (message output : String)
  | launcherUnavailable (launcher : String) (reason : SystemError)
  /-- There is no directory to work in, or the compiler may not be started. -/
  | system (reason : SystemError)
  deriving DecidableEq, Repr

namespace Failure

/-- The wording of a failure. -/
def message : Failure → String
  | unbalanced message _ => message
  | compilerUnavailable compiler reason =>
    "compiler `" ++ compiler ++ "` is not available: " ++ reason.message
  | rejected _ => "Compilation failed"
  | nothingCompiled => "Class file was not generated - compilation may have failed silently"
  | overdue limit _ => "Execution timeout exceeded (" ++ timeoutText limit ++ ")"
  | crashed message _ => message
  | launcherUnavailable launcher reason =>
    "launcher `" ++ launcher ++ "` could not be started: " ++ reason.message
  | system reason => "scratch space error: " ++ reason.message

/-- What a failure has to say about the snippet. -/
def diagnostics : Failure → List Diagnostic
  | unbalanced message line => [.error message line]
  | rejected diagnostics => diagnostics
  | _ => []

/-- What the program printed before it failed, if it ran. -/
def output? : Failure → Option String
  | overdue _ output | crashed _ output => some output
  | _ => none

/-- Whether the program ran and failed by itself. -/
def isCrash : Failure → Bool
  | crashed _ _ => true
  | _ => false

/-- Whether the snippet is not to be run in another way: it took too long already. -/
def isFinal : Failure → Bool
  | overdue _ _ => true
  | _ => false

/-- The failure as the outcome of an execution. -/
def outcome (f : Failure) : Outcome :=
  let failed := Outcome.failed f.message f.diagnostics .native
  match f.output? with
  | some output => failed.withOutput output
  | none => failed

end Failure

end SnippetRunner
