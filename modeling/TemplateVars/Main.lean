/-
The command line program.

Design notes: everything the program decides is decided by `run`; what is left
here is to look at the files it may ask for, and to carry out what it says.
Whether a file can be created shows only when it is tried, so after a failure
the program runs again with that knowledge.
-/
import TemplateVars.Command.Run

namespace TemplateVars.Main

/-- An error of the system in the words of the program; its number may come with
either sign. -/
def accessError : IO.Error → AccessError
  | .noFileOrDirectory .. => .missing
  | .inappropriateType _ code _ =>
    if code = 20 || code = -20 then .notDirectory else .isDirectory
  | e => .other (toString e)

/-- A path as an entry of the working directory. -/
def entryOf (path : String) : IO.FS.DirEntry := { root := ".", fileName := path }

/-- The content of a file. -/
def readFile (path : String) : IO (Except AccessError String) := do
  if path ≠ "" && (← (entryOf path).path.isDir) then return .error .isDirectory
  try
    return .ok (← IO.FS.readFile path)
  catch e =>
    return .error (accessError e)

/-- The paths of the files below a directory; links are not followed. -/
partial def filesBelow (path : String) (entry : IO.FS.DirEntry) : IO (List String) := do
  let entries ← entry.path.readDir
  let found ← entries.toList.mapM fun inner => do
    let innerPath := Directory.join path [inner.fileName]
    match (← inner.path.symlinkMetadata).type with
    | .dir => filesBelow innerPath inner
    | .file => return [innerPath]
    | _ => return []
  return found.flatten

/-- The paths of the files below a directory, if it is one. -/
def filesBelow? (path : String) : IO (Option (List String)) := do
  if path ≠ "" && (← (entryOf path).path.isDir) then
    return some (← filesBelow path (entryOf path))
  return none

/-- The paths at which a run may read. -/
def pathsOf : Request → List String
  | .run { config, command } =>
    config.toList ++ match command with
      | some (.report path ..) => [path]
      | some (.check path _) => [path]
      | _ => []
  | _ => []

/-- The directories whose files a run may list. -/
def rootsOf : Request → List String
  | .run { command := some (.check path true), .. } => [path]
  | _ => []

/-- What a run may ask for. -/
def look (request : Request) : IO Files := do
  let roots ← (rootsOf request).mapM fun path => return (path, ← filesBelow? path)
  let listed := roots.flatMap fun root => root.2.getD []
  let contents ← (pathsOf request ++ listed.filter hasJsonExtension).mapM fun path =>
    return (path, ← readFile path)
  return {
    read := fun path => (contents.lookup path).getD (.error .missing)
    below? := fun path => (roots.lookup path).join
    refusal? := fun _ => none }

/-- Carries out what a run says. -/
def finish (outcome : Outcome) : IO UInt32 := do
  IO.print outcome.output
  IO.eprint outcome.errors
  return outcome.status.toUInt32

end TemplateVars.Main

open TemplateVars Main in
/-- The program. -/
def main (arguments : List String) : IO UInt32 := do
  let files ← match Request.ofArguments? arguments with
    | some request => look request
    | none => pure (Directory.view { files := .empty })
  let outcome := run files arguments
  match outcome.saved with
  | none => finish outcome
  | some file =>
    try
      IO.FS.writeFile file.path file.content
      finish outcome
    catch e =>
      finish (run { files with refusal? := fun _ => some (accessError e) } arguments)
