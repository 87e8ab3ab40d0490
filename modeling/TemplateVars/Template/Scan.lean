/-
The variables that the expression fields of a template read.

Design notes: a field whose expression cannot be read contributes nothing but a
diagnostic; the other fields are unaffected.
-/
import TemplateVars.Analysis.Collector
import TemplateVars.Failure
import TemplateVars.Template.Basic

namespace TemplateVars

/-- An expression field that cannot be read. -/
structure Diagnostic where
  label : String
  expression : String
  error : String
  deriving DecidableEq, Repr

/-- What scanning a list of fields finds. -/
structure Aggregation where
  found : NameSet := ∅
  diagnostics : List Diagnostic := []
  /-- The number of fields with an expression. -/
  expressions : Nat := 0

/-- The expression in a field, if it is of a type that has one and not empty. -/
def Field.expression? (options : Options) (f : Field) : Option String :=
  if options.isExpressionType f.type then f.content.filter (· ≠ "") else none

namespace Aggregation

/-- Adds the outcome for one field. -/
def add (a : Aggregation) (f : Field) (expression : String) :
    Except ParseError NameSet → Aggregation
  | .ok names => { a with found := a.found.union names, expressions := a.expressions + 1 }
  | .error e =>
    { a with
      diagnostics := a.diagnostics ++ [⟨f.label, expression, e.text⟩]
      expressions := a.expressions + 1 }

/-- Scans one more field. -/
def scanField (options : Options) (a : Aggregation) (f : Field) : Aggregation :=
  match f.expression? options with
  | some expression => a.add f expression (analyze options expression)
  | none => a

/-- Scans a list of fields. -/
def ofFields (options : Options) (fields : List Field) : Aggregation :=
  fields.foldl (scanField options) {}

end Aggregation

/-- The free variables of one expression; none if it cannot be read. -/
def variablesOf (options : Options) (expression : String) : List String :=
  match analyze options expression with
  | .ok found => found.toList
  | .error _ => []

end TemplateVars
