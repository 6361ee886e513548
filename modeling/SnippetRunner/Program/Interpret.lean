import SnippetRunner.Outcome
import SnippetRunner.Program
import SnippetRunner.Run
import SnippetRunner.Statement.Reading

/-!
# Interpreting a program

The interpreter runs the body of the `main` method of a program. It is found by the grammar of
declarations if the program follows it, or else by matching braces, and if there is none the whole
text is the body.
-/

namespace SnippetRunner

namespace Program

/-- The statements that the interpreter runs, as texts. -/
def fragments (p : Program) : List Fragment :=
  let structural := do
    let unit ← (CompilationUnit.parse p.text).toOption
    let main ← unit.main?
    main.body
  match structural with
  | some body => Fragment.split (body.text p.text) (Fragment.lineAt p.text body.start)
  | none =>
    match Fragment.mainBody? p.text with
    | some (position, body) => Fragment.split body (Fragment.lineAt p.text position)
    | none => Fragment.split p.text 1

/-- The statements that the interpreter runs. -/
def statements (p : Program) : List Statement := p.fragments.map Statement.read

/-- Runs the statements of a program. -/
def execute (limits : Limits) (p : Program) : EStateM.Result Stop Machine Unit :=
  (Run.execAll p.statements).run (.start limits)

/-- The machine that a run leaves behind. -/
def machineAfter : EStateM.Result Stop Machine Unit → Machine
  | .ok _ m | .error _ m => m

/-- What a run is reported as. The line of a stop is that of the snippet. -/
def outcomeOf (p : Program) : EStateM.Result Stop Machine Unit → Outcome
  | .ok _ m => .succeeded m.console.text .interpreter
  | .error stop m =>
    let stop := stop.mapLine fun line => (p.sourceLine? line).getD line
    (Outcome.failed ("Runtime error: " ++ stop.message) [.error stop.message stop.line?]
      .interpreter).withOutput m.console.text

/-- The outcome of interpreting a program. -/
def interpret (limits : Limits) (p : Program) : Outcome := p.outcomeOf (p.execute limits)

end Program

end SnippetRunner
