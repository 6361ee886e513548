import SnippetRunner.Decimal.Layout

/-!
# Limits of a run, and why a run stops early

A run is bounded in three ways, and these bounds are the only way for it to fail.
-/

namespace SnippetRunner

/-- The bounds of a run. -/
structure Limits where
  /-- How often each loop may run its body. -/
  iterations : Nat
  /-- The most bytes of output. -/
  outputBytes : Nat
  /-- The time for the whole run in milliseconds. -/
  timeout : Nat
  deriving DecidableEq, Repr

/-- Why a run stopped early. -/
inductive Stop
  /-- The loop on a line ran its body as often as it may, and was not done. -/
  | loopLimit (limit line : Nat)
  /-- The time in milliseconds has passed. -/
  | deadline (timeout : Nat)
  /-- The output would have become longer than it may be. -/
  | outputLimit (limit : Nat)
  /-- A block was to be run whose only statement is that block. -/
  | endlessBlock
  deriving DecidableEq, Repr

/-- A time in milliseconds as messages have it: in seconds where they are whole. -/
def timeoutText (milliseconds : Nat) : String :=
  if milliseconds % 1000 = 0 then
    let seconds := milliseconds / 1000
    s!"{seconds} second" ++ if seconds = 1 then "" else "s"
  else s!"{milliseconds} ms"

namespace Stop

/-- The wording of a stop. -/
def message : Stop → String
  | loopLimit limit line => s!"loop at line {line} exceeded {limit} iterations"
  | deadline timeout => "Execution timeout exceeded (" ++ timeoutText timeout ++ ")"
  | outputLimit limit => s!"output exceeded {limit} bytes"
  | endlessBlock => "block without end"

/-- The line that a stop points at. -/
def line? : Stop → Option Nat
  | loopLimit _ line => some line
  | _ => none

/-- The same stop with its line replaced by another. -/
def mapLine (f : Nat → Nat) : Stop → Stop
  | loopLimit limit line => loopLimit limit (f line)
  | other => other

end Stop

end SnippetRunner
