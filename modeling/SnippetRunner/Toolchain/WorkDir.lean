import SnippetRunner.Files

/-!
# Work directories

A run that compiles has three places of its own in a work directory: for the program, for the
classes made of it, and for files that the program makes. They are cleared before a run and after
it (`prepare`, `clear`), so nothing is left over from one run to the next.
-/

namespace SnippetRunner

/-- What stands at a place. -/
inductive Place
  | absent
  | file
  /-- A folder, with the ways from the work directory to the files in it. -/
  | folder (files : List Way)
  /-- Nothing can stand here, for the given reason. -/
  | unreachable (reason : SystemError)
  deriving DecidableEq, Repr

namespace Place

/-- Whether anything stands there. -/
def isTaken : Place → Bool
  | file | folder _ => true
  | absent | unreachable _ => false

/-- Whether a folder has a file at the end of the given way. -/
def holds (way : Way) : Place → Bool
  | folder files => files.contains way
  | _ => false

/-- Removes a folder with all that is in it. Where there is none, nothing is to be done. -/
def remove : Place → Except SystemError Place
  | absent | folder _ => .ok absent
  | file => .error .notDirectory
  | unreachable reason => .error reason

/-- The folder with more files. -/
def add (ways : List Way) : Place → Place
  | folder files => folder (files ++ ways)
  | other => other

end Place

/-- A work directory. -/
structure WorkDir where
  path : String
  sources : Place
  classes : Place
  temporary : Place
  deriving DecidableEq, Repr

namespace WorkDir

/-- A new directory. -/
def fresh (path : String) : WorkDir := ⟨path, .absent, .absent, .absent⟩

/-- A directory that cannot be made, because a file is in the way. -/
def blocked (path : String) : WorkDir :=
  ⟨path, .unreachable .notDirectory, .unreachable .notDirectory, .unreachable .notDirectory⟩

/-- What stands at a path among files. -/
def placeAt {α : Type} (files : Files α) (path : String) : Place :=
  match files.lookup path.toList with
  | .ok (.file _) => .file
  | .ok .folder => .folder []
  | .error .notFound => .absent
  | .error reason => .unreachable reason

/-- The work directory at a path among files. -/
def among {α : Type} (files : Files α) (path : String) : WorkDir :=
  let place (name : String) := placeAt files (pathBelow path name)
  ⟨path, place "src", place "classes", place "tmp"⟩

/-- Whether any of the three places is taken. -/
def isTaken (d : WorkDir) : Bool :=
  d.sources.isTaken || d.classes.isTaken || d.temporary.isTaken

/-- Clears the three places in order, up to the first that cannot be cleared. -/
def clear (d : WorkDir) : WorkDir × Option SystemError :=
  match d.sources.remove with
  | .error e => (d, some e)
  | .ok sources =>
    let d := { d with sources }
    match d.classes.remove with
    | .error e => (d, some e)
    | .ok classes =>
      let d := { d with classes }
      match d.temporary.remove with
      | .error e => (d, some e)
      | .ok temporary => ({ d with temporary }, none)

/-- Clears the three places and makes them empty folders. -/
def prepare (d : WorkDir) : WorkDir × Option SystemError :=
  match d.clear with
  | (d, some e) => (d, some e)
  | (d, none) => (⟨d.path, .folder [], .folder [], .folder []⟩, none)

/-- The path of a place, or of something in it. -/
def below (d : WorkDir) (name : String) : String := pathBelow d.path name

/-- The way from a work directory to a file that a path from the classes leads to. -/
def classWay? (path : List Char) : Option Way := Way.ofFile? ("classes/".toList ++ path)

/-- The directory with a source file of the given name in a folder of its own. -/
def withSource (d : WorkDir) (name : List Char) : Except SystemError WorkDir :=
  if Way.fits name then
    .ok { d with sources := d.sources.add [["src".toList, "run".toList, name]] }
  else .error .nameTooLong

/-- The path of the source file of the given name. -/
def sourcePath (d : WorkDir) (name : List Char) : String :=
  d.below ("src/run/" ++ String.ofList name)

/-- Whether the classes hold the file that a path from them leads to. -/
def hasClass (d : WorkDir) (path : List Char) : Bool :=
  match classWay? path with
  | some way => d.classes.holds way
  | none => false

end WorkDir

end SnippetRunner
