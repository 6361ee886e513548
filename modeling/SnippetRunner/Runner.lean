import SnippetRunner.Program.Interpret
import SnippetRunner.Settings
import SnippetRunner.Toolchain.Attempt

/-!
# Running a snippet

`Runner.execute` turns a snippet into an outcome, and every failure on the way becomes part of it:

* a blank snippet, and one that a rule forbids, is turned down;
* if a compiler is to be used, the snippet is compiled and launched;
* if that fails, other than by taking too long, the snippet is interpreted.
-/

namespace SnippetRunner

open Text

/-- A runner: its settings, and what it finds around it. -/
structure Runner where
  settings : Settings
  toolchain : Toolchain
  surroundings : Surroundings

/-- An execution with its traces. -/
structure Execution where
  outcome : Outcome
  /-- The programs that were to be started. -/
  calls : List Call
  /-- The work directory afterwards. -/
  workDir : WorkDir

namespace Failure

/-- How a failure is told where the interpreter was to make up for it. -/
def retold (f : Failure) : String :=
  match f with
  | rejected _ => f.message
  | crashed _ _ => "Execution failed: " ++ f.message
  | _ => "Compilation failed: " ++ f.message

/-- The outcome after a native run has failed and the interpreter has ended as given. If it
succeeded, what the failure had to say remains as warnings; if not, the failure is reported with
what the interpreter has to say behind it. -/
def thenInterpreted (f : Failure) (interpreted : Outcome) : Outcome :=
  if interpreted.success then
    let errors := (f.diagnostics.filter Diagnostic.isError).map Diagnostic.asWarning
    let crash := if f.isCrash then [Diagnostic.warning f.retold none] else []
    { interpreted.withDiagnostics (errors ++ crash) with usedFallback := true }
  else
    let output := (f.output?.filter fun output => !output.isEmpty).getD interpreted.output
    (Outcome.failed f.retold (f.diagnostics ++ interpreted.diagnostics) .native).withOutput output

end Failure

namespace Runner

/-- The outcome for a blank snippet. -/
def blank : Outcome := .failed "empty source" [] .none

/-- The outcome for a snippet that a rule forbids. -/
def forbidden (rule : DenyRule) : Outcome :=
  .failed "Code contains unsafe operations"
    [.error ("Security violation: " ++ rule.violation) none] .none

/-- What is reported of a native run, with the interpreter at hand. -/
def conclude (policy : Policy) (p : Program) : Except Failure Streams → Outcome
  | .ok streams => .succeeded streams.combined .native
  | .error failure =>
    if failure.isFinal || (failure.isCrash && !policy.retryAfterCrash) then failure.outcome
    else failure.thenInterpreted (p.interpret policy.limits)

/-- Executes a snippet. -/
def execute (r : Runner) (d : WorkDir) (snippet : List Char) : Execution :=
  let policy := r.settings.policy
  if isBlank snippet then ⟨blank, [], d⟩
  else
    match screen policy.deny snippet with
    | some rule => ⟨forbidden rule, [], d⟩
    | none =>
      let p := Program.ofSnippet snippet
      if !r.settings.native.enabled then ⟨p.interpret policy.limits, [], d⟩
      else
        let attempt := r.settings.native.attempt policy r.toolchain r.surroundings p d
        ⟨conclude policy p attempt.result, attempt.calls, attempt.workDir⟩

/-- Executes snippets one after another in one work directory. -/
def executeAll (r : Runner) (d : WorkDir) : List (List Char) → List Execution
  | [] => []
  | snippet :: rest =>
    let execution := r.execute d snippet
    execution :: executeAll r execution.workDir rest

end Runner

end SnippetRunner
