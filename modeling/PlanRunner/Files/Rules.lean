import PlanRunner.Config.Basic
import PlanRunner.Context.Project
import PlanRunner.Json.Basic
import PlanRunner.Text.Blank

/-!
# PlanRunner — files, and the rules of a project in one of them

A tree of directories and files, and what a path leads to in it. Every part of a path
but the last has to name a directory, also where the path only passes through it on
the way up again, and so has the last one if a slash follows it.

The rules of a project are the text of a file below its root, without the white space
around it. A file that is blank, missing or unreadable holds no rules.

* `FileTree.find` — what is at a path, or why nothing is;
* `FileTree.readText` — the text of a file;
* `FileTree.makeDir`, `FileTree.write` — the tree after a change;
* `rulesInFiles` — the rules of projects in a tree of files.
-/

namespace PlanRunner

/-- Files by name in directories. -/
inductive FileTree where
  | file (content : ByteArray)
  | dir (entries : List (String × FileTree))

/-- Why a path cannot be used. -/
inductive FileFault where
  | missing
  | notDirectory
  | isDirectory
  | notText
  deriving DecidableEq, Repr

namespace FileFault

def message : FileFault → String
  | .missing => "No such file or directory (os error 2)"
  | .notDirectory => "Not a directory (os error 20)"
  | .isDirectory => "Is a directory (os error 21)"
  | .notText => "stream did not contain valid UTF-8"

def shown : FileFault → String
  | .missing => "Os \x7b code: 2, kind: NotFound, message: \"No such file or directory\" \x7d"
  | .notDirectory => "Os \x7b code: 20, kind: NotADirectory, message: \"Not a directory\" \x7d"
  | .isDirectory => "Os \x7b code: 21, kind: IsADirectory, message: \"Is a directory\" \x7d"
  | .notText =>
    "Error \x7b kind: InvalidData, message: \"stream did not contain valid UTF-8\" \x7d"

end FileFault

namespace Path

/-- A path below another one; an absolute path stays as it is. -/
def join (base part : String) : String :=
  if part.startsWith "/" then part
  else if base.isEmpty || base.endsWith "/" then base ++ part
  else base ++ "/" ++ part

def parts (path : String) : List String :=
  path.splitOn "/"

end Path

namespace FileTree

def empty : FileTree := .dir []

/-- What the rest of a path leads to from a place below some directories. -/
def walk : List FileTree → FileTree → List String → Except FileFault FileTree
  | _, here, [] => .ok here
  | _, .file _, _ :: _ => .error .notDirectory
  | above, .dir entries, part :: rest =>
    if part = "" ∨ part = "." then walk above (.dir entries) rest
    else if part = ".." then
      match above with
      | parent :: above => walk above parent rest
      | [] => walk [] (.dir entries) rest
    else
      match field? part entries with
      | some child => walk (.dir entries :: above) child rest
      | none => .error .missing

def find (tree : FileTree) (path : String) : Except FileFault FileTree :=
  walk [] tree (Path.parts path)

def contains (tree : FileTree) (path : String) : Bool :=
  match tree.find path with
  | .ok _ => true
  | .error _ => false

def readBytes (tree : FileTree) (path : String) : Except FileFault ByteArray :=
  match tree.find path with
  | .ok (.file content) => .ok content
  | .ok (.dir _) => .error .isDirectory
  | .error e => .error e

def readText (tree : FileTree) (path : String) : Except FileFault String :=
  match tree.readBytes path with
  | .error e => .error e
  | .ok content =>
    match String.fromUTF8? content with
    | some text => .ok text
    | none => .error .notText

/-- The tree with a directory at some names, one below the other. -/
def makeDirAt : List String → FileTree → Except FileFault FileTree
  | [], .dir entries => .ok (.dir entries)
  | _, .file _ => .error .notDirectory
  | name :: rest, .dir entries =>
    (makeDirAt rest ((field? name entries).getD empty)).map fun child =>
      .dir (insertField name child entries)

/-- The tree with a file at some names, one below the other. -/
def writeAt (content : ByteArray) : List String → FileTree → Except FileFault FileTree
  | [], .file _ => .ok (.file content)
  | [], .dir _ => .error .isDirectory
  | _ :: _, .file _ => .error .notDirectory
  | [name], .dir entries =>
    match field? name entries with
    | some (.dir _) => .error .isDirectory
    | _ => .ok (.dir (insertField name (.file content) entries))
  | name :: rest, .dir entries =>
    match field? name entries with
    | none => .error .missing
    | some child =>
      (writeAt content rest child).map fun child => .dir (insertField name child entries)

/-- The names of a path that does not lead up again. -/
def names (path : String) : List String :=
  (Path.parts path).filter fun part => part != "" && part != "."

def makeDir (tree : FileTree) (path : String) : Except FileFault FileTree :=
  makeDirAt (names path) tree

/-- The tree with a text at a path, the directory of which is there. -/
def write (tree : FileTree) (path text : String) : Except FileFault FileTree :=
  writeAt text.toUTF8 (names path) tree

/-- The tree with a file at a path and all directories above it. Where a file is in
the way of a directory or the other way round, nothing changes. -/
def plant (tree : FileTree) (path : String) (content : ByteArray) : FileTree :=
  let planted := (makeDirAt (names path).dropLast tree).bind (writeAt content (names path))
  match planted with
  | .ok tree => tree
  | .error _ => tree

end FileTree

-- ---------------------------------------------------------------------------
-- Rules
-- ---------------------------------------------------------------------------

def RulesLocation.pathIn (l : RulesLocation) (root : String) : String :=
  Path.join (Path.join root l.dir) l.file

def rulesAt (tree : FileTree) (path : String) : Option String :=
  match tree.readText path with
  | .ok text => if Text.isBlank text then none else some (Text.trim text)
  | .error _ => none

/-- The rules of projects in a tree of files. Roots are taken from a working
directory. -/
def rulesInFiles (l : RulesLocation) (tree : FileTree) (cwd : String) : RulesSource :=
  fun root => rulesAt tree (l.pathIn (Path.join cwd root))

end PlanRunner
