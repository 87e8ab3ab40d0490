/-
The report on a template: which variables its expressions require, and which of
them its fields provide.

Design notes: all lists are in code point order except the diagnostics, which
follow the fields.  The text lists the required variables, then which are
provided and missing, then what could not be read; the document has the same
under fixed keys and leaves out an empty list of diagnostics.
-/
import TemplateVars.Json.Printer
import TemplateVars.Template.Supply

namespace TemplateVars

/-- Counts of what was scanned. -/
structure Statistics where
  fields : Nat
  expressions : Nat
  failed : Nat
  deriving DecidableEq, Repr

structure Report where
  required : List String
  available : List String
  provided : List String
  missing : List String
  diagnostics : List Diagnostic
  statistics : Statistics
  deriving DecidableEq, Repr

namespace Report

/-- The report on a list of fields. -/
def ofFields (options : Options) (fields : List Field) : Report :=
  let scanned := Aggregation.ofFields options fields
  let required := scanned.found.toList
  let available := availableNames options fields
  let split := categorize required available
  { required := required
    available := available.toList
    provided := split.provided
    missing := split.missing
    diagnostics := scanned.diagnostics
    statistics :=
      { fields := fields.length
        expressions := scanned.expressions
        failed := scanned.diagnostics.length } }

def ofTemplate (options : Options) (t : Template) : Report := ofFields options t.fields

/-- Whether every required variable is provided. -/
def isComplete (r : Report) : Bool := r.missing.isEmpty

/-- A count in parentheses. -/
def counted (title : String) (n : Nat) : String := title ++ " (" ++ n.repr ++ "):"

/-- Names behind their number, in one line. -/
def namesLine (title : String) (names : List String) : String :=
  counted title names.length ++ " " ++ ", ".intercalate names

def diagnosticLine (d : Diagnostic) : String :=
  "  " ++ d.label ++ ": " ++ d.expression ++ " (" ++ d.error ++ ")"

/-- The lines about what could not be read. -/
def diagnosticLines : List Diagnostic → List String
  | [] => []
  | ds => counted "Failed expressions" ds.length :: ds.map diagnosticLine

/-- The lines of the text. -/
def lines (r : Report) : List String :=
  [counted "Required variables" r.required.length] ++ r.required.map ("  " ++ ·) ++
    [namesLine "Provided" r.provided, namesLine "Missing" r.missing] ++
    diagnosticLines r.diagnostics ++
    ["Scanned " ++ r.statistics.fields.repr ++ " schemas, " ++
      r.statistics.expressions.repr ++ " expressions"]

/-- The report as text. -/
def text (r : Report) : String := String.join (r.lines.map (· ++ "\n"))

def diagnosticJson (d : Diagnostic) : Json :=
  .object [("schemaName", .string d.label), ("expression", .string d.expression),
    ("error", .string d.error)]

/-- The member for the diagnostics, if there are any. -/
def diagnosticsMember : List Diagnostic → List (String × Json)
  | [] => []
  | ds => [("diagnostics", .array (ds.map diagnosticJson))]

def statisticsJson (s : Statistics) : Json :=
  .object [("schemaCount", .nat s.fields), ("expressionCount", .nat s.expressions),
    ("failedExpressions", .nat s.failed)]

def toJson (r : Report) : Json :=
  .object ([("required", .strings r.required), ("available", .strings r.available),
    ("provided", .strings r.provided), ("missing", .strings r.missing)] ++
    diagnosticsMember r.diagnostics ++ [("stats", statisticsJson r.statistics)])

/-- The report as a JSON document with a final line break. -/
def document (r : Report) : String := r.toJson.pretty 0 ++ "\n"

end Report

end TemplateVars
