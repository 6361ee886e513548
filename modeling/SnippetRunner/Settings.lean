import SnippetRunner.Run.Stop
import SnippetRunner.Screen

/-!
# Settings

What a runner is set to: the limits and rules for every snippet (`Policy`), and the compiler and
launcher it tries first (`NativeSettings`). Every setting has a default.
-/

namespace SnippetRunner

/-- Limits and rules that hold for every snippet. Times are in milliseconds. -/
structure Policy where
  /-- The time for a compiled program, or for an interpreted one. -/
  timeout : Nat
  compileTimeout : Nat
  /-- How often each interpreted loop may run its body. -/
  iterations : Nat
  /-- The most bytes that an interpreted program may print. -/
  outputBytes : Nat
  /-- Whether a compiled program that failed is interpreted. -/
  retryAfterCrash : Bool
  deny : List DenyRule
  deriving DecidableEq, Repr

namespace Policy

/-- The policy unless another is set. -/
def standard : Policy where
  timeout := 10000
  compileTimeout := 30000
  iterations := 100000
  outputBytes := 1024 * 1024
  retryAfterCrash := true
  deny := DenyRule.standard

/-- The limits of an interpreted run. -/
def limits (p : Policy) : Limits := ⟨p.iterations, p.outputBytes, p.timeout⟩

end Policy

/-- How snippets are compiled and launched. -/
structure NativeSettings where
  /-- Whether this is tried at all. -/
  enabled : Bool
  compiler : String
  launcher : String
  sourceVersion : String
  targetVersion : String
  encoding : String
  /-- The directory for sources and classes; a new one is made for each run if there is none. -/
  workDir : Option String
  /-- Archives with the classes of the platform. -/
  platformJars : List String
  /-- The root of an installed development kit. -/
  javaHome : Option String
  /-- More places where the compiler looks for classes. -/
  classpath : List String
  deriving DecidableEq, Repr

/-- The settings unless others are made. -/
def NativeSettings.standard : NativeSettings where
  enabled := true
  compiler := "javac"
  launcher := "java"
  sourceVersion := "11"
  targetVersion := "11"
  encoding := "UTF-8"
  workDir := none
  platformJars :=
    ["framework", "core", "ext", "android"].map fun name => "/system/framework/" ++ name ++ ".jar"
  javaHome := none
  classpath := []

/-- All settings of a runner. -/
structure Settings where
  policy : Policy
  native : NativeSettings
  deriving DecidableEq, Repr

namespace Settings

/-- Nothing is set. -/
def standard : Settings := ⟨.standard, .standard⟩

/-- Only the interpreter is used. -/
def interpreterOnly (s : Settings) : Settings := { s with native.enabled := false }

end Settings

end SnippetRunner
