/-
Configuration: what a user sets once for all runs.

Design notes: an entry that is not set leaves the default in force; one that is
set replaces the default as a whole.
-/
import TemplateVars.Analysis.Options

namespace TemplateVars

/-- How results are written. -/
inductive OutputForm where
  | text | json
  deriving DecidableEq, Repr

/-- The form of a given name. -/
def OutputForm.ofName? : String → Option OutputForm
  | "text" => some text
  | "json" => some json
  | _ => none

structure Config where
  extraBuiltins : Option (List String) := none
  expressionTypes : Option (List String) := none
  extraStaticTypes : Option (List String) := none
  form : Option OutputForm := none
  deriving DecidableEq, Repr

namespace Config

/-- The keys that a configuration knows. -/
def keys : List String := ["extra_builtins", "expression_types", "extra_static_types", "format"]

/-- The options in force. -/
def options (c : Config) : Options :=
  { extraBuiltins := c.extraBuiltins.getD []
    expressionTypes := c.expressionTypes.getD [expressionFieldType]
    extraStaticTypes := c.extraStaticTypes.getD [] }

end Config

end TemplateVars
