import SnippetRunner.Files
import SnippetRunner.Settings
import SnippetRunner.Text.Basic

/-!
# Where a compiler finds classes

There are several places to look for the classes that a program builds on. Each is a `Probe`, and
the first one that finds something decides (`Probe.resolve`). `compilerArguments` are the arguments
that a compiler is started with.
-/

namespace SnippetRunner

open Text

/-- What a compiler is told about classes. -/
inductive ClasspathSetting
  /-- Archives that replace the classes of the platform. -/
  | boot (jars : List String)
  /-- A development kit with the classes of the platform. -/
  | system (home : String)
  /-- More places to look in. -/
  | user (entries : List String)
  deriving DecidableEq, Repr

/-- What can be asked of the surroundings. -/
structure Surroundings where
  isFile : String → Bool
  /-- The environment's development kit. -/
  javaHome : Option String
  /-- The environment's places to look in, with a colon between two. -/
  classpath : Option String

/-- Surroundings without files and without an environment. -/
def Surroundings.bare : Surroundings := ⟨fun _ => false, none, none⟩

/-- A way to find classes. -/
inductive Probe
  /-- Archives with the classes of the platform. -/
  | platformJars (candidates : List String)
  /-- A development kit that holds an image of the platform. -/
  | jdkModules (home : Option String)
  /-- The given places, or those of the environment if none are given. -/
  | processClasspath (entries : List String)
  deriving DecidableEq, Repr

namespace Probe

/-- The name of a probe. -/
def name : Probe → String
  | platformJars _ => "platform-jars"
  | jdkModules _ => "jdk-modules"
  | processClasspath _ => "process-classpath"

/-- The places that a text with colons between them names. -/
def placesIn (joined : String) : List String :=
  ((splitAtEach (· = ':') joined.toList).filter fun place => !place.isEmpty).map String.ofList

/-- What a probe finds. -/
def find? (s : Surroundings) : Probe → Option ClasspathSetting
  | platformJars candidates =>
    let jars := candidates.filter s.isFile
    if jars.isEmpty then none else some (.boot jars)
  | jdkModules home => do
    let home ← home
    if s.isFile (pathBelow home "lib/modules") then return .system home else none
  | processClasspath entries =>
    let entries := if entries.isEmpty then (s.classpath.map placesIn).getD [] else entries
    if entries.isEmpty then none else some (.user entries)

/-- What the first probe that finds something finds. -/
def resolve (s : Surroundings) (probes : List Probe) : Option ClasspathSetting :=
  probes.findSome? (find? s)

/-- The probes of the settings. A development kit that is not set is taken from the environment. -/
def standard (s : Surroundings) (n : NativeSettings) : List Probe :=
  [platformJars n.platformJars, jdkModules (n.javaHome.or s.javaHome), processClasspath n.classpath]

/-- The names of probes as they are shown. -/
def describe (probes : List Probe) : String :=
  let names := probes.map fun p => "\"" ++ p.name ++ "\""
  "ClasspathResolver \x7b probes: [" ++ ", ".intercalate names ++ "] \x7d"

end Probe

/-- Paths with a colon between two. -/
def joinPaths (paths : List String) : String := ":".intercalate paths

/-- The arguments about classes. The directory that classes are written to comes first among the
places to look in, so that one class finds another. -/
def classpathArguments (setting : Option ClasspathSetting) (classes : String) : List String :=
  match setting with
  | some (.boot jars) => ["-bootclasspath", joinPaths jars, "-cp", classes]
  | some (.system home) => ["--system", home, "-cp", classes]
  | some (.user entries) => ["-cp", joinPaths (classes :: entries)]
  | none => ["-cp", classes]

/-- The arguments of a compiler that compiles one file. -/
def compilerArguments (n : NativeSettings) (setting : Option ClasspathSetting)
    (classes file : String) : List String :=
  ["-d", classes, "-source", n.sourceVersion, "-target", n.targetVersion, "-nowarn", "-g",
    "-encoding", n.encoding, "-proc:none"] ++ classpathArguments setting classes ++ [file]

end SnippetRunner
