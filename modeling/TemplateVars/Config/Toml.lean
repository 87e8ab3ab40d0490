/-
Configurations written in TOML.

Design notes: the known keys stand in the top-level table; all others are
ignored.  A form is named by a string, or as the only key of a table over an
empty array or table.
-/
import TemplateVars.Config.Basic
import TemplateVars.Toml.Reader

namespace TemplateVars.Config

/-- An entry that is a list of texts. -/
def tomlList? : Option Toml → Option (Option (List String))
  | none => some none
  | some value => value.stringList?.map some

/-- An entry that names a form. -/
def tomlForm? : Option Toml → Option (Option OutputForm)
  | none => some none
  | some (.string name) => (OutputForm.ofName? name).map some
  | some (.table _ [(name, .array [])]) => (OutputForm.ofName? name).map some
  | some (.table _ [(name, .table _ [])]) => (OutputForm.ofName? name).map some
  | some _ => none

/-- The configuration that a TOML text spells. -/
def ofToml? (text : String) : Option Config := do
  let members ← Toml.read? text
  let extraBuiltins ← tomlList? (Toml.value? "extra_builtins" members)
  let expressionTypes ← tomlList? (Toml.value? "expression_types" members)
  let extraStaticTypes ← tomlList? (Toml.value? "extra_static_types" members)
  let form ← tomlForm? (Toml.value? "format" members)
  some { extraBuiltins, expressionTypes, extraStaticTypes, form }

end TemplateVars.Config
