import SnippetRunner.CommandLine
import SnippetRunner.Outcome.Json
import SnippetRunner.Runner
import SnippetRunner.Settings.Reading
import SnippetRunner.Text.Utf8

/-!
# Answering the command line

The program's answer to its arguments (`World.respond`): what it prints, and its status. The output
of a snippet goes to the standard output; how it went, and what there is to say about it, goes to
the standard error.

The status is 0 for a snippet that succeeded, 1 for one that failed, and 2 if nothing could be run.
-/

namespace SnippetRunner

open Text

/-- What the program answers. -/
structure Response where
  status : Nat
  output : String
  errors : String
  deriving DecidableEq, Repr

/-- What the program finds around it. -/
structure World where
  /-- Reads a file. -/
  read : String → Except SystemError (List UInt8)
  /-- The standard input. -/
  input : List UInt8
  /-- The work directory at a path. -/
  workDir : String → WorkDir
  /-- Why a program of a given name cannot be started. -/
  refusal : String → SystemError
  surroundings : Surroundings

/-! ## Colours -/

/-- A terminal's colour. -/
inductive Colour
  | red
  | green
  | yellow
  deriving DecidableEq, Repr

namespace Colour

/-- The number of a colour. -/
def code : Colour → Nat
  | red => 9
  | green => 10
  | yellow => 11

/-- The sequence that starts a colour. -/
def start (c : Colour) : String := s!"\x1b[38;5;{c.code}m"

/-- A text in a colour. -/
def paint (c : Colour) (text : String) : String := c.start ++ text ++ "\x1b[39m"

/-- A bold text in a colour. -/
def paintBold (c : Colour) (text : String) : String := c.start ++ "\x1b[1m" ++ text ++ "\x1b[0m"

end Colour

/-! ## Outcomes -/

namespace Outcome

/-- What has run the snippet, in words. -/
def tierText (o : Outcome) : String :=
  match o.tier with
  | .native => "native"
  | .interpreter => if o.usedFallback then "interpreter, after native failure" else "interpreter"
  | .none => "not run"

/-- How it went, and what there is to say about it. -/
def summary (o : Outcome) : String :=
  let status :=
    if o.success then Colour.green.paintBold "ok" else Colour.red.paintBold "failed"
  let diagnostic (d : Diagnostic) : String :=
    (if d.isError then Colour.red else Colour.yellow).paint ("  • " ++ d.render)
  let lines :=
    (status ++ " (" ++ o.tierText ++ s!") in {o.duration} ms") ::
      (o.errorMessage.map Colour.red.paint).toList ++ o.diagnostics.map diagnostic
  String.join (lines.map fun line => line.push '\n')

/-- The output, with a line break at its end. -/
def outputLines (o : Outcome) : String :=
  if o.output.isEmpty || o.output.endsWith "\n" then o.output else o.output.push '\n'

/-- How an outcome is shown. -/
def response (o : Outcome) (json : Bool) : Response :=
  let status := if o.success then 0 else 1
  if json then ⟨status, o.json.push '\n', ""⟩ else ⟨status, o.outputLines, o.summary⟩

end Outcome

/-! ## Requests -/

namespace Response

/-- The program's name and version. -/
def version : Response := ⟨0, "sniprun 0.1.0\n", ""⟩

/-- How the program is used. -/
def help : Response where
  status := 0
  output := "\n".intercalate [
    "Run a Java snippet with an interpreter fallback",
    "",
    "Usage: sniprun [OPTIONS] [FILE]",
    "",
    "Arguments:",
    "  [FILE]  Snippet file; `-` or nothing reads stdin",
    "",
    "Options:",
    "      --config <PATH>     Engine configuration (TOML)",
    "      --json              Print the full result as JSON",
    "      --interpreter-only  Skip the native compiler and interpret directly",
    "      --timeout-ms <N>    Override the execution timeout",
    "  -h, --help              Print help",
    "  -V, --version           Print version",
    ""]
  errors := ""

/-- The arguments are wrong. -/
def misuse : Response := ⟨2, "", "usage"⟩

/-- Nothing could be run. -/
def failure (message : String) : Response :=
  ⟨2, "", Colour.red.paintBold "error:" ++ " " ++ message ++ "\n"⟩

end Response

/-- The text of bytes that were read, or why there is none. -/
def textOf (bytes : Except SystemError (List UInt8)) : Except String (List Char) :=
  match bytes with
  | .error e => .error e.message
  | .ok bytes =>
    match decodeUtf8? bytes with
    | some text => .ok text
    | none => .error "stream did not contain valid UTF-8"

namespace World

/-- Reads settings from a file. -/
def settings (w : World) (path : String) : Except String Settings :=
  match textOf (w.read path) with
  | .error reason => .error ("failed to read config file " ++ path ++ ": " ++ reason)
  | .ok text =>
    match Settings.ofText? text with
    | some settings => .ok settings
    | none => .error "invalid config"

/-- The settings for a request. -/
def settingsFor (w : World) (r : Request) : Except String Settings := do
  let settings ←
    match r.config with
    | some path => w.settings path
    | none => pure .standard
  let settings := if r.interpreterOnly then settings.interpreterOnly else settings
  match r.timeout with
  | some timeout => return { settings with policy.timeout := timeout }
  | none => return settings

/-- The snippet for a request. -/
def snippet (w : World) (r : Request) : Except String (List Char) :=
  match r.file.filter (· ≠ "-") with
  | none => textOf (.ok w.input)
  | some path =>
    match textOf (w.read path) with
    | .ok text => .ok text
    | .error reason => .error ("cannot read " ++ path ++ ": " ++ reason)

/-- The settings and the snippet for a request. -/
def prepare (w : World) (r : Request) : Except String (Settings × List Char) := do
  let settings ← w.settingsFor r
  return (settings, ← w.snippet r)

/-- Runs a snippet. -/
def execute (w : World) (settings : Settings) (snippet : List Char) : Outcome :=
  let n := settings.native
  let dir := (n.workDir.map w.workDir).getD (.fresh "")
  let toolchain := Toolchain.refusing (w.refusal n.compiler) (w.refusal n.launcher)
  ((⟨settings, toolchain, w.surroundings⟩ : Runner).execute dir snippet).outcome

/-- The answer to a request. -/
def answer (w : World) (r : Request) : Response :=
  match w.prepare r with
  | .error message => .failure message
  | .ok (settings, snippet) => (w.execute settings snippet).response r.json

/-- The answer to arguments. -/
def respond (w : World) (args : List String) : Response :=
  match Command.ofArguments args with
  | .help => .help
  | .version => .version
  | .misuse => .misuse
  | .run request => w.answer request

end World

end SnippetRunner
