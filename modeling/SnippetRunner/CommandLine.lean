import SnippetRunner.Text.Basic
import SnippetRunner.Decimal.Reading

/-!
# The command line

What the arguments of the program ask for (`Command.ofArguments`). They are read from left to right,
and the first that asks for help or for the version, or is wrong, decides.
-/

namespace SnippetRunner

open Text

/-- How one snippet is to be run. -/
structure Request where
  /-- The file of the snippet; a dash stands for the standard input. -/
  file : Option String
  /-- The file of the settings. -/
  config : Option String
  /-- Whether the whole outcome is printed, as JSON. -/
  json : Bool
  interpreterOnly : Bool
  /-- A time limit in milliseconds that replaces the one that is set. -/
  timeout : Option Nat
  deriving DecidableEq, Repr

/-- What is to be done. -/
inductive Command
  | help
  | version
  /-- The arguments are wrong. -/
  | misuse
  | run (request : Request)
  deriving DecidableEq, Repr

namespace Request

/-- Nothing is asked for. -/
def standard : Request := ⟨none, none, false, false, none⟩

/-- Sets the file of the snippet, which has a name and is set once. -/
def setFile (r : Request) (path : String) : Option Request :=
  if path.isEmpty || r.file.isSome then none else some { r with file := some path }

/-- Sets the file of the settings, which has a name and is set once. -/
def setConfig (r : Request) (path : String) : Option Request :=
  if path.isEmpty || r.config.isSome then none else some { r with config := some path }

/-- Sets the time limit, a number below `2 ^ 64`, which is set once. -/
def setTimeout (r : Request) (number : String) : Option Request :=
  let digits := (afterLead? ['+'] number.toList).getD number.toList
  let n := Decimal.digitsValue 10 digits
  if digits.isEmpty || !digits.all Char.isDigit || n ≥ UInt64.size || r.timeout.isSome then none
  else some { r with timeout := some n }

/-- Asks for JSON, once. -/
def setJson (r : Request) : Option Request := if r.json then none else some { r with json := true }

/-- Asks for the interpreter only, once. -/
def setInterpreterOnly (r : Request) : Option Request :=
  if r.interpreterOnly then none else some { r with interpreterOnly := true }

end Request

namespace Command

/-- What the next argument is to be. -/
inductive Expected
  | anything
  /-- Files only, even if they look like options. -/
  | files
  /-- The value of an option. -/
  | config
  | timeout
  deriving DecidableEq, Repr

/-- What an argument by itself is. -/
inductive Argument
  /-- The mark behind which only files follow. -/
  | endOfOptions
  /-- A long option, with its value if it is given in the same argument. -/
  | long (name : String) (value : Option String)
  /-- Short options. -/
  | short (letters : List Char)
  | plain (text : String)
  deriving DecidableEq, Repr

/-- The kind of an argument. A single dash is not an option. -/
def Argument.ofText (arg : String) : Argument :=
  match arg.toList with
  | ['-', '-'] => endOfOptions
  | '-' :: '-' :: option =>
    match breakOn? ['='] option with
    | some (name, value) => long (String.ofList name) (some (String.ofList (value.drop 1)))
    | none => long (String.ofList option) none
  | '-' :: letter :: letters => short (letter :: letters)
  | _ => plain arg

/-- What the arguments that are left ask for, after the request that was made so far. -/
def continued (request : Request) (expected : Expected) : List String → Command
  | [] =>
    match expected with
    | .anything | .files => run request
    | .config | .timeout => misuse
  | arg :: rest =>
    let goOn (changed : Option Request) (expected : Expected) : Command :=
      match changed with
      | some request => continued request expected rest
      | none => misuse
    match expected, Argument.ofText arg with
    | .files, _ => goOn (request.setFile arg) .files
    | .config, .plain path => goOn (request.setConfig path) .anything
    | .timeout, .plain number => goOn (request.setTimeout number) .anything
    | .config, _ | .timeout, _ => misuse
    | .anything, .plain path => goOn (request.setFile path) .anything
    | .anything, .endOfOptions => goOn (some request) .files
    | .anything, .short ('h' :: _) => help
    | .anything, .short ('V' :: _) => version
    | .anything, .short _ => misuse
    | .anything, .long name value =>
      match name, value with
      | "help", none => help
      | "version", none => version
      | "json", none => goOn request.setJson .anything
      | "interpreter-only", none => goOn request.setInterpreterOnly .anything
      | "config", some path => goOn (request.setConfig path) .anything
      | "config", none => goOn (some request) .config
      | "timeout-ms", some number => goOn (request.setTimeout number) .anything
      | "timeout-ms", none => goOn (some request) .timeout
      | _, _ => misuse

/-- What the arguments ask for. -/
def ofArguments (args : List String) : Command := continued .standard .anything args

end Command

end SnippetRunner
