/-
What a run of the program sees of the file system.

Design notes: a run reads everything before it writes anything, so what it sees
is fixed; reading, listing and the question whether a file could be created are
functions of the path as it was written.
-/

namespace TemplateVars

/-- Why the system refuses to read or create a file. -/
inductive AccessError where
  | missing
  /-- The path leads through a file. -/
  | notDirectory
  | isDirectory
  | other (text : String)
  deriving DecidableEq, Repr

/-- The wording of the system. -/
def AccessError.text : AccessError → String
  | missing => "No such file or directory (os error 2)"
  | notDirectory => "Not a directory (os error 20)"
  | isDirectory => "Is a directory (os error 21)"
  | other text => text

/-- The file system in the eyes of a run. -/
structure Files where
  /-- The content of the file at a path. -/
  read : String → Except AccessError String
  /-- The paths of all files below a directory; none if it is not one. -/
  below? : String → Option (List String)
  /-- Why no file can be created or overwritten at a path, if that is so. -/
  refusal? : String → Option AccessError

/-- The last component of a path. -/
def fileName (path : List Char) : List Char :=
  (path.reverse.takeWhile (· != '/')).reverse

/-- Whether the file at a path has the extension `json`; a name that starts with
its only point has no extension. -/
def hasJsonExtension (path : String) : Bool :=
  let name := fileName path.toList
  ".json".toList.isSuffixOf name && 5 < name.length

end TemplateVars
