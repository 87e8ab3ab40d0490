/-
A working directory as a value.

* `Directory.view` is what a run sees of it;
* `Directory.save` writes a file.

Design notes: a folder exists for the sake of the files in it, or because it is
listed.  Paths are followed name by name, so `..` undoes a name only where that
name is a folder.  Outside the directory there are only folders to come back
from: nothing there can be read, listed or written.  There are no links, and all
names and contents are Unicode texts.
-/
import TemplateVars.Files.Basic
import TemplateVars.Files.Tree

namespace TemplateVars

structure Directory where
  files : FileTree
  folders : List Trail := []
  deriving DecidableEq, Repr

namespace Directory

/-- A folder that a path leads through. -/
inductive Folder where
  | inside (trail : Trail)
  | outside
  deriving DecidableEq, Repr

/-- What a path leads to. -/
inductive Target where
  | folder (f : Folder)
  | file (trail : Trail) (content : String)
  /-- Nothing, but in a folder that exists. -/
  | absent (f : Folder) (name : String)
  deriving DecidableEq, Repr

def content? (d : Directory) (trail : Trail) : Option String :=
  (d.files.toList.find? (·.1 == trail)).map (·.2)

def isFolder (d : Directory) (trail : Trail) : Bool :=
  trail.isEmpty || d.folders.contains trail ||
    d.files.toList.any fun file => trail.isBelow file.1

/-- What a name leads to from a folder. -/
def follow (d : Directory) (f : Folder) (name : String) : Target :=
  if name = "." then .folder f
  else match f with
    | .outside => if name = ".." then .folder .outside else .absent .outside name
    | .inside trail =>
      if name = ".." then
        .folder (if trail = [] then .outside else .inside trail.dropLast)
      else
        let trail := trail ++ [name]
        match d.content? trail with
        | some content => .file trail content
        | none => if d.isFolder trail then .folder (.inside trail) else .absent f name

/-- Follows names from a folder; `closed` says that a slash ends the path, so
that it has to lead to a folder. -/
def walk (d : Directory) (closed : Bool) : Folder → List String → Except AccessError Target
  | f, [] => .ok (.folder f)
  | f, name :: rest =>
    match d.follow f name with
    | .folder f => d.walk closed f rest
    | .file trail content =>
      if rest = [] ∧ !closed then .ok (.file trail content) else .error .notDirectory
    | .absent f name => if rest = [] then .ok (.absent f name) else .error .missing

/-- The stretches between the slashes of a path, empty ones included. -/
def segments : List Char → List (List Char)
  | [] => [[]]
  | c :: rest =>
    if c = '/' then [] :: segments rest
    else match segments rest with
      | [] => [[c]]
      | first :: more => (c :: first) :: more

/-- The names in a path. -/
def names (path : String) : List String :=
  ((segments path.toList).filter (· != [])).map String.ofList

/-- Where a path leads; the empty path leads nowhere. -/
def find (d : Directory) (closed : Bool) (path : String) : Except AccessError Target :=
  if path = "" then .error .missing
  else d.walk closed (if path.startsWith "/" then .outside else .inside []) (names path)

/-- Whether a slash ends a path. -/
def isClosed (path : String) : Bool := path.endsWith "/"

def read (d : Directory) (path : String) : Except AccessError String :=
  match d.find (isClosed path) path with
  | .error e => .error e
  | .ok (.folder _) => .error .isDirectory
  | .ok (.file _ content) => .ok content
  | .ok (.absent ..) => .error .missing

/-- A path to something below a folder. -/
def join (folder : String) (inner : Trail) : String :=
  folder ++ (if isClosed folder then "" else "/") ++ "/".intercalate inner

/-- The paths of the files below a folder. -/
def below? (d : Directory) (path : String) : Option (List String) :=
  match d.find (isClosed path) path with
  | .ok (.folder (.inside trail)) =>
    some ((d.files.toList.filter fun file => trail.isBelow file.1).map fun file =>
      join path (file.1.drop trail.length))
  | .ok (.folder .outside) => some []
  | _ => none

/-- The trail of the file that is created or overwritten at a path. -/
def place (d : Directory) (path : String) : Except AccessError Trail :=
  match d.find false path with
  | .error e => .error e
  | .ok (.folder _) => .error .isDirectory
  | .ok (.file trail _) => if isClosed path then .error .isDirectory else .ok trail
  | .ok (.absent (.inside trail) name) =>
    if isClosed path then .error .isDirectory else .ok (trail ++ [name])
  | .ok (.absent .outside _) => .error .missing

def refusal? (d : Directory) (path : String) : Option AccessError :=
  match d.place path with
  | .error e => some e
  | .ok _ => none

/-- What a run sees of a directory. -/
def view (d : Directory) : Files :=
  { read := d.read, below? := d.below?, refusal? := d.refusal? }

/-- The directory after a file has been written, if it can be. -/
def save (d : Directory) (path content : String) : Directory :=
  match d.place path with
  | .error _ => d
  | .ok trail => { d with files := d.files.put trail content }

end Directory

end TemplateVars
