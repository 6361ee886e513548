import SnippetRunner.CommandLine.Response

/-!
# The program

Reads what the arguments name, lets `World` answer, and prints the answer. No other program is
started: a compiler and a launcher count as not installed.
-/

namespace SnippetRunner

/-- The system's reason for an error. -/
def reasonOf : IO.Error → SystemError
  | .permissionDenied _ code _ | .inappropriateType _ code _ | .invalidArgument _ code _ =>
    .numbered code.toNat
  | _ => .notFound

/-- Reads a file. -/
def readBytes (path : String) : IO (Except SystemError (List UInt8)) := do
  try
    return .ok (← IO.FS.readBinFile path).toList
  catch e =>
    return .error (reasonOf e)

/-- Reads all that is left of a stream. -/
partial def readRest (stream : IO.FS.Stream) (bytes : ByteArray) : IO ByteArray := do
  let more ← stream.read 65536
  if more.isEmpty then return bytes else readRest stream (bytes ++ more)

/-- The files that a request names, with what is in them. -/
def filesFor (r : Request) : IO (List (String × Except SystemError (List UInt8))) :=
  (r.config.toList ++ (r.file.filter (· ≠ "-")).toList).mapM fun path => do
    return (path, ← readBytes path)

/-- What is around the program for a request. -/
def worldFor (r : Request) : IO World := do
  let files ← filesFor r
  let input ←
    if (r.file.filter (· ≠ "-")).isSome then pure ByteArray.empty
    else readRest (← IO.getStdin) .empty
  return {
    read := fun path => (files.lookup path).getD (.error .notFound)
    input := input.toList
    workDir := .fresh
    refusal := fun _ => .notFound
    surroundings := .bare }

/-- The answer to a request, with the time it took. -/
def timedAnswer (r : Request) : IO Response := do
  let world ← worldFor r
  match world.prepare r with
  | .error message => return .failure message
  | .ok (settings, snippet) =>
    let started ← IO.monoMsNow
    let outcome ← IO.lazyPure fun _ => world.execute settings snippet
    return (outcome.withDuration ((← IO.monoMsNow) - started)).response r.json

end SnippetRunner

open SnippetRunner in
def main (args : List String) : IO UInt32 := do
  let response ←
    match Command.ofArguments args with
    | .help => pure .help
    | .version => pure .version
    | .misuse => pure .misuse
    | .run request => timedAnswer request
  (← IO.getStdout).putStr response.output
  (← IO.getStderr).putStr response.errors
  return UInt32.ofNat response.status
