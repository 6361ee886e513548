import SnippetRunner.SystemError
import SnippetRunner.Text.Basic

/-!
# Files and folders

A tree of files and folders, and where a path leads in it. `Way.follow` takes one step of a path:
it leads on, stays where it is, or leads back up. A path leads through folders only, so what stands
behind the name of a file cannot be reached (`Files.walk`).

Paths start at a folder of the tree, or at the root of the system. Nothing is known of what stands
above that folder, except that there are folders on the way to it.
-/

namespace SnippetRunner

open Text

/-- The path of a name below a directory. -/
def pathBelow (directory name : String) : String :=
  if directory.isEmpty || directory.endsWith "/" then directory ++ name
  else directory ++ "/" ++ name

/-- The names on the way to a file or a folder, its own last. Two dots stand for a folder above the
tree, and an empty name for the root of the system. -/
abbrev Way := List (List Char)

namespace Way

/-- Whether a step leads back up. -/
def isUp (step : List Char) : Bool := step = ['.', '.']

/-- Whether a name is short enough for the system. -/
def fits (name : List Char) : Bool := byteSize name ≤ 255

/-- Whether a step stays where it is. -/
def isIdle (step : List Char) : Bool := step.isEmpty || step = ['.']

/-- The way to the folder above. The root of the system has itself above it. -/
def up (way : Way) : Way :=
  match way.getLast? with
  | none => [['.', '.']]
  | some [] => way
  | some name => if isUp name then way ++ [name] else way.dropLast

/-- The way on after one step of a path. -/
def follow (way : Way) (step : List Char) : Way :=
  if isIdle step then way else if isUp step then way.up else way ++ [step]

/-- The steps that a path is made of. -/
def steps (path : List Char) : List (List Char) := splitAtEach (· = '/') path

/-- Where a path starts. -/
def start (path : List Char) : Way := if path.head? = some '/' then [[]] else []

/-- Where a path leads. -/
def ofPath (path : List Char) : Way := (steps path).foldl follow (start path)

/-- Where a path leads that can name a file: its last step is the file's name, and no name on the
way is too long. -/
def ofFile? (path : List Char) : Option Way :=
  match (steps path).getLast? with
  | some name =>
    if isIdle name || isUp name || !(ofPath path).all fits then none else some (ofPath path)
  | none => none

/-- The folders that the steps of a path pass through, the one they start from included. -/
def passed (way : Way) : List (List Char) → List Way
  | [] => []
  | step :: rest => way :: passed (way.follow step) rest

/-- Whether the way leads no deeper than to the tree. -/
def isAbove (way : Way) : Bool := way.all fun name => name.isEmpty || isUp name

end Way

/-- Files with their contents, and folders. Whatever leads to one of them is a folder too. -/
structure Files (α : Type) where
  files : List (Way × α)
  folders : List Way

/-- What a path leads to. -/
inductive Node (α : Type)
  | file (content : α)
  | folder

namespace Files

variable {α : Type}

/-- No files. -/
def empty : Files α := ⟨[], []⟩

/-- Adds a folder, and those that the path to it passes through. -/
def addFolder (fs : Files α) (path : List Char) : Files α :=
  { fs with folders :=
      fs.folders ++ Way.passed (Way.start path) (Way.steps path) ++ [Way.ofPath path] }

/-- Adds a file, and the folders that the path to it passes through. -/
def addFile (fs : Files α) (path : List Char) (content : α) : Files α where
  files := fs.files ++ ((Way.ofFile? path).map fun way => (way, content)).toList
  folders := fs.folders ++ Way.passed (Way.start path) (Way.steps path)

/-- What stands at the end of a way. -/
def node? (fs : Files α) (way : Way) : Option (Node α) :=
  match fs.files.find? fun f => f.1 = way with
  | some (_, content) => some (.file content)
  | none =>
    if way.isAbove || (fs.files.map Prod.fst ++ fs.folders).any way.isPrefixOf then some .folder
    else none

/-- Follows the steps of a path. Only a folder can be left. -/
def walk (fs : Files α) (way : Way) : List (List Char) → Except SystemError (Node α)
  | [] =>
    match fs.node? way with
    | some node => .ok node
    | none => .error .notFound
  | step :: steps =>
    match fs.node? way with
    | none => .error .notFound
    | some (.file _) => .error .notDirectory
    | some .folder =>
      if Way.fits step then walk fs (way.follow step) steps else .error .nameTooLong

/-- What a path leads to. The empty path leads nowhere. -/
def lookup (fs : Files α) (path : List Char) : Except SystemError (Node α) :=
  if path.isEmpty then .error .notFound
  else if path.contains '\x00' then .error .nulInPath
  else if 4096 ≤ byteSize path then .error .nameTooLong
  else fs.walk (Way.start path) (Way.steps path)

/-- Whether a path leads to a file. -/
def isFile (fs : Files α) (path : List Char) : Bool :=
  match fs.lookup path with
  | .ok (.file _) => true
  | _ => false

/-- The content of the file that a path leads to. -/
def read (fs : Files α) (path : List Char) : Except SystemError α := do
  match ← fs.lookup path with
  | .file content => return content
  | .folder => throw .isDirectory

/-- Why a program cannot be started. A name without a slash is the name of an installed program, and
there is none; a path leads to a program, but nothing here may be started. -/
def refusal (fs : Files α) (program : List Char) : SystemError :=
  if !program.contains '/' then
    if program = ['.'] || Way.isUp program then .permissionDenied else .notFound
  else
    match fs.lookup program with
    | .ok _ => .permissionDenied
    | .error reason => reason

end Files

end SnippetRunner
