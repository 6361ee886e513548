import SnippetRunner.Program
import SnippetRunner.Toolchain.Balance
import SnippetRunner.Toolchain.Classpath
import SnippetRunner.Toolchain.Failure
import SnippetRunner.Toolchain.Messages
import SnippetRunner.Toolchain.WorkDir

/-!
# Compiling and launching

`NativeSettings.attempt` compiles a program and launches what was compiled. Of a compiler and a
launcher only their behaviour matters, and a `Toolchain` is no more than that. Each stage can fail,
and the work directory is cleared whichever stage was the last.
-/

namespace SnippetRunner

open Text

/-- How a compiler and a launcher behave. A compiler is taken to add files below the directory of
classes and to do nothing else to the work directory: it neither removes the directory nor puts a
file in its place. -/
structure Toolchain where
  /-- The end of a compiler with the given arguments, and the files it writes below the directory
  of classes. -/
  compile : List String → Ending × List (List Char)
  /-- The end of a launcher with the given arguments. -/
  launch : List String → Ending

/-- A compiler and a launcher that cannot be started, for the given reasons. -/
def Toolchain.refusing (compiler launcher : SystemError) : Toolchain :=
  ⟨fun _ => (.refused compiler, []), fun _ => .refused launcher⟩

/-- A program that was to be started. -/
inductive Call
  /-- A compiler, with the name of the file it compiles. -/
  | compile (file : List Char) (ending : Ending)
  /-- A launcher, with the name of the type it launches. -/
  | launch (entry : List Char) (ending : Ending)
  deriving DecidableEq, Repr

/-- What came of an attempt. -/
structure Attempt where
  result : Except Failure Streams
  /-- The programs that were to be started, in order. -/
  calls : List Call
  /-- The work directory afterwards. -/
  workDir : WorkDir

/-- The reason why a program failed: what stopped its main thread, else the first line of its
errors, else its status. -/
def crashMessage (status : Option Nat) (errors : List Char) : String :=
  let mark := "Exception in thread \"main\" ".toList
  match (lines errors).findSome? (Messages.behind? mark) with
  | some reason => String.ofList (trim reason)
  | none =>
    match ((lines errors).map trim).find? fun line => !line.isEmpty with
    | some line => String.ofList line
    | none => "Program exited with status " ++ statusText status

namespace NativeSettings

/-- Why there is nothing to launch after a compiler ended, if so. -/
def compileFailure? (n : NativeSettings) (limit : Nat) (p : Program) (d : WorkDir) :
    Ending → Option Failure
  | .refused .notFound => some (.compilerUnavailable n.compiler .notFound)
  | .refused reason => some (.system reason)
  | .overdue _ => some (.rejected [.error s!"Compiler did not finish within {limit} ms" none])
  | .exited status streams =>
    let diagnostics := Messages.read p (streams.output ++ "\n" ++ streams.errors).toList
    if diagnostics.any Diagnostic.isError then some (.rejected diagnostics)
    else if status ≠ some 0 then
      some (.rejected
        (diagnostics ++ [.error ("Compiler exited with status " ++ statusText status) none]))
    else if d.hasClass p.classFile then none
    else some .nothingCompiled

/-- What comes of a call, which is the name of a program and its arguments: `made`, unless there is
a NUL in it. -/
def endOfCall {α : Type} (call : List String) (refused : SystemError → α) (made : α) : α :=
  if call.any fun part => part.toList.contains '\x00' then refused .nulInCall else made

/-- What the end of a launched program means. -/
def launchResult (n : NativeSettings) (limit : Nat) : Ending → Except Failure Streams
  | .refused reason => .error (.launcherUnavailable n.launcher reason)
  | .overdue streams => .error (.overdue limit streams.combined)
  | .exited status streams =>
    if status = some 0 then .ok streams
    else .error (.crashed (crashMessage status streams.errors.toList) streams.combined)

/-- The arguments of a launcher. -/
def launcherArguments (p : Program) (d : WorkDir) : List String :=
  ["-Djava.io.tmpdir=" ++ d.below "tmp", "-cp", d.below "classes", String.ofList p.qualifiedEntry]

/-- Compiles a program in a prepared directory and launches it. The directory is left as it is. -/
def compileAndLaunch (n : NativeSettings) (policy : Policy) (t : Toolchain)
    (setting : Option ClasspathSetting) (p : Program) (d : WorkDir) : Attempt :=
  match d.withSource p.fileName with
  | .error reason => ⟨.error (.system reason), [], d⟩
  | .ok d =>
    let arguments := compilerArguments n setting (d.below "classes") (d.sourcePath p.fileName)
    let (ending, written) :=
      endOfCall (n.compiler :: arguments) (fun e => (.refused e, [])) (t.compile arguments)
    let d := { d with classes := d.classes.add (written.filterMap WorkDir.classWay?) }
    let compiled := Call.compile p.fileName ending
    match n.compileFailure? policy.compileTimeout p d ending with
    | some failure => ⟨.error failure, [compiled], d⟩
    | none =>
      let arguments := launcherArguments p d
      let ending := endOfCall (n.launcher :: arguments) Ending.refused (t.launch arguments)
      ⟨n.launchResult policy.timeout ending, [compiled, .launch p.qualifiedEntry ending], d⟩

/-- Compiles a program and launches it. -/
def attempt (n : NativeSettings) (policy : Policy) (t : Toolchain) (s : Surroundings) (p : Program)
    (d : WorkDir) : Attempt :=
  match checkBalance p.snippet with
  | some imbalance => ⟨.error (.unbalanced imbalance.message imbalance.line?), [], d⟩
  | none =>
    match d.prepare with
    | (d, some reason) => ⟨.error (.system reason), [], d.clear.1⟩
    | (d, none) =>
      let setting := Probe.resolve s (Probe.standard s n)
      let attempt := n.compileAndLaunch policy t setting p d
      { attempt with workDir := attempt.workDir.clear.1 }

end NativeSettings

end SnippetRunner
