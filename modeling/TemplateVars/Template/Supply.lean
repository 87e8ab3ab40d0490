/-
The names that the fields of a template supply, and which variables they cover.

Design notes: a field supplies its name unless it is read-only, holds an
expression or draws a shape.  Warnings are for names that no expression can
read, or that none has to.  They follow version 16 of Unicode and expressions
version 17, so a name with a letter that is new there is warned of although an
expression can read it.
-/
import TemplateVars.Template.Scan
import TemplateVars.Text.Recent

namespace TemplateVars

open Text

/-- Whether a field's name stands for a value in expressions. -/
def Field.supplies (options : Options) (f : Field) : Bool :=
  !f.isReadOnly && !options.isExpressionType f.type && !options.isStaticType f.type

/-- The names that fields supply. -/
def availableNames (options : Options) (fields : List Field) : NameSet :=
  .ofList ((fields.filter (·.supplies options)).filterMap (·.name))

/-- Names with and without a field that supplies them. -/
structure Categorized where
  provided : List String
  missing : List String
  deriving DecidableEq, Repr

/-- Splits names by whether they are available, keeping their order. -/
def categorize (required : List String) (available : NameSet) : Categorized :=
  { provided := required.filter (· ∈ available)
    missing := required.filter (· ∉ available) }

/-- Whether a name is the name of a variable, by the letters and numbers of
version 16 of Unicode. -/
def isValidIdentifier (name : String) : Bool :=
  match name.toList with
  | first :: rest =>
    isIdentifierStart first && rest.all isIdentifierPart && !name.toList.any isRecent &&
      !isKeyword name
  | [] => false

inductive WarningKind where
  /-- The name is not that of a variable. -/
  | invalidIdentifier
  /-- The name is built in, so no expression requires it. -/
  | shadowsBuiltin
  deriving DecidableEq, Repr

/-- A field whose name serves no expression. -/
structure Warning where
  field : String
  kind : WarningKind
  deriving DecidableEq, Repr

def Warning.text (w : Warning) : String :=
  match w.kind with
  | .invalidIdentifier =>
    "field '" ++ w.field ++ "' is not a valid identifier and cannot be used in expressions"
  | .shadowsBuiltin =>
    "field '" ++ w.field ++
      "' has the name of a built-in and will never be reported as required"

/-- The warning that a name gives rise to. -/
def nameWarning? (options : Options) (name : String) : Option Warning :=
  if !isValidIdentifier name then some ⟨name, .invalidIdentifier⟩
  else if options.isBuiltin name then some ⟨name, .shadowsBuiltin⟩
  else none

/-- The warnings for the names that fields supply, in order. -/
def lint (options : Options) (fields : List Field) : List Warning :=
  ((fields.filter (·.supplies options)).filterMap (·.name)).filterMap (nameWarning? options)

end TemplateVars
