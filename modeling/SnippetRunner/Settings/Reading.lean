import SnippetRunner.Settings
import SnippetRunner.Toml.Reading

/-!
# Reading settings

`Settings.ofText?` reads settings from a TOML text. What is not set has its default; a name that no
setting has is refused, and so is a value of the wrong kind. A list of rules replaces the default
one.

A group of settings is a table, or a list that gives them by position.
-/

namespace SnippetRunner

namespace Toml

/-- The values of named settings, in the order of the names. -/
def settings? (names : List String) : Toml → Option (List (Option Toml))
  | table _ entries =>
    if entries.all fun e => names.contains e.1 then some (names.map fun n => Entries.get? n entries)
    else none
  | array _ items => some ((List.range names.length).map fun i => items[i]?)
  | _ => none

/-- A setting with a default. -/
def orDefault {α : Type} (default : α) (read : Toml → Option α) : Option Toml → Option α
  | some value => read value
  | none => some default

/-- A number that is not negative. -/
def count? : Toml → Option Nat
  | integer n => if n < 0 then none else some n.toNat
  | _ => none

/-- A truth value. -/
def truth? : Toml → Option Bool
  | boolean b => some b
  | _ => none

/-- A text. -/
def words? : Toml → Option String
  | text s => some s
  | _ => none

/-- A list of values that are read alike. -/
def list? {α : Type} (read : Toml → Option α) : Toml → Option (List α)
  | array _ items => items.mapM read
  | _ => none

end Toml

open Toml

/-- The rule that a value describes. Its pattern and its message have no default. -/
def DenyRule.ofToml? (value : Toml) : Option DenyRule := do
  match ← settings? ["pattern", "requires_any", "message"] value with
  | [some pattern, requiresAny, some message] =>
    return {
      pattern := (← words? pattern).toList
      requiresAny := (← orDefault [] (list? words?) requiresAny).map String.toList
      message := ← words? message }
  | _ => none

/-- The policy that a value describes. -/
def Policy.ofToml? (value : Toml) : Option Policy := do
  match ← settings? ["timeout_ms", "compile_timeout_ms", "max_loop_iterations", "max_output_bytes",
      "fallback_on_runtime_error", "deny"] value with
  | [timeout, compileTimeout, iterations, outputBytes, retry, deny] =>
    return {
      timeout := ← orDefault standard.timeout count? timeout
      compileTimeout := ← orDefault standard.compileTimeout count? compileTimeout
      iterations := ← orDefault standard.iterations count? iterations
      outputBytes := ← orDefault standard.outputBytes count? outputBytes
      retryAfterCrash := ← orDefault standard.retryAfterCrash truth? retry
      deny := ← orDefault standard.deny (list? DenyRule.ofToml?) deny }
  | _ => none

/-- The settings of a compiler and a launcher that a value describes. -/
def NativeSettings.ofToml? (value : Toml) : Option NativeSettings := do
  match ← settings? ["enabled", "compiler", "launcher", "source_version", "target_version",
      "encoding", "work_dir", "platform_jars", "java_home", "classpath"] value with
  | [enabled, compiler, launcher, sourceVersion, targetVersion, encoding, workDir, platformJars,
      javaHome, classpath] =>
    return {
      enabled := ← orDefault standard.enabled truth? enabled
      compiler := ← orDefault standard.compiler words? compiler
      launcher := ← orDefault standard.launcher words? launcher
      sourceVersion := ← orDefault standard.sourceVersion words? sourceVersion
      targetVersion := ← orDefault standard.targetVersion words? targetVersion
      encoding := ← orDefault standard.encoding words? encoding
      workDir := ← workDir.mapM words?
      platformJars := ← orDefault standard.platformJars (list? words?) platformJars
      javaHome := ← javaHome.mapM words?
      classpath := ← orDefault standard.classpath (list? words?) classpath }
  | _ => none

namespace Settings

/-- The settings that a value describes. -/
def ofToml? (value : Toml) : Option Settings := do
  match ← settings? ["policy", "native"] value with
  | [policy, native] =>
    return ⟨← orDefault .standard Policy.ofToml? policy,
      ← orDefault .standard NativeSettings.ofToml? native⟩
  | _ => none

/-- The settings in a text. -/
def ofText? (text : List Char) : Option Settings := do ofToml? (← Toml.ofText? text)

end Settings

end SnippetRunner
