/-
Configuration files.

Design notes: the suffix of the path says what the content is written in.  The
file is read before its suffix is looked at.  A list of expression types that is
set must name one.
-/
import TemplateVars.Config.Json
import TemplateVars.Config.Toml
import TemplateVars.Failure
import TemplateVars.Files.Basic

namespace TemplateVars.Config

/-- The configuration in a file of the given content. -/
def ofContent (path content : String) : Except Failure Config :=
  if path.endsWith ".json" then
    (ofJson? content).elim (.error (.invalidFormat "Invalid JSON config")) .ok
  else if path.endsWith ".toml" then
    (ofToml? content).elim (.error (.invalidFormat "Invalid TOML config")) .ok
  else .error (.invalidFormat "Config file must be .json or .toml format")

/-- Refuses a configuration under which no field could hold an expression. -/
def validate (c : Config) : Except Failure Config :=
  if c.expressionTypes = some [] then
    .error (.config "expression_types must name at least one schema type")
  else .ok c

/-- The configuration in the file at a path. -/
def load (files : Files) (path : String) : Except Failure Config :=
  match files.read path with
  | .error e => .error (.notFound ("Config file " ++ path ++ ": " ++ e.text))
  | .ok content => ofContent path content >>= validate

end TemplateVars.Config
