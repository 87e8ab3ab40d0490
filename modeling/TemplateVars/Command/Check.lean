/-
Checking templates: whether their expressions can be read, and whether their
fields have names of use.

* `Check.file` checks one template, `Check.all` several in turn;
* `Check.input` checks a file, or all templates below a directory.

Design notes: a warning about a name does not make a check fail.  In a
directory every template is checked, whatever the others are like.
-/
import TemplateVars.Failure
import TemplateVars.Files.Basic
import TemplateVars.Number.Shortest
import TemplateVars.Template.Document
import TemplateVars.Template.Report

namespace TemplateVars

/-- The template in the file at a path. -/
def Template.load (files : Files) (path : String) : Except Failure Template :=
  match files.read path with
  | .error e => .error (.notFound ("Template file " ++ path ++ ": " ++ e.text))
  | .ok content =>
    match Template.ofDocument content with
    | .error e => .error (.template path e.message)
    | .ok t => .ok t

/-- What a command prints, and how it fails if it does. -/
structure Printed where
  output : String
  failure : Option Failure := none
  deriving DecidableEq, Repr

namespace Printed

def isOk (p : Printed) : Bool := p.failure.isNone

end Printed

namespace Check

/-- A line about a file, behind a mark. -/
def line (mark path text : String) : String := mark ++ " " ++ path ++ " - " ++ text ++ "\n"

def warningLine (path : String) (w : Warning) : String := line "⚠️ " path w.text

def diagnosticLine (path : String) (d : Diagnostic) : String :=
  line "❌" path (d.label ++ ": " ++ d.error)

/-- The lines about a template that could be loaded. -/
def template (options : Options) (path : String) (t : Template) : Printed :=
  let report := Report.ofTemplate options t
  let warnings := String.join ((lint options t.fields).map (warningLine path))
  match report.diagnostics with
  | [] =>
    { output := warnings ++
        line "✅" path (report.statistics.expressions.repr ++ " expressions parsed") }
  | diagnostics =>
    { output := warnings ++ String.join (diagnostics.map (diagnosticLine path))
      failure := some (.template path (report.statistics.failed.repr ++ " of " ++
        report.statistics.expressions.repr ++ " expressions failed to parse")) }

/-- Checks one file. -/
def file (files : Files) (options : Options) (path : String) : Printed :=
  let title := "🔍 Checking " ++ path ++ "\n"
  match Template.load files path with
  | .error failure => { output := title ++ line "❌" path failure.text, failure := some failure }
  | .ok t =>
    let checked := template options path t
    { checked with output := title ++ checked.output }

/-- How many out of a total succeeded, in percent; the quotient is rounded
before it is scaled. -/
def successRate (total failed : Nat) : String :=
  ((Number.ofRatio (total - failed) total).mul (.ofNat 100)).textOnePlace ++ "%"

/-- The lines after the checks of several files. -/
def summary (total failed : Nat) : String :=
  "\n📊 Check Summary:\n   Total templates: " ++ total.repr ++
    "\n   Templates with errors: " ++ failed.repr ++ "\n" ++
    if 0 < total then "   Success rate: " ++ successRate total failed ++ "\n" else ""

/-- Checks files one after the other. -/
def all (files : Files) (options : Options) (root : String) (paths : List String) : Printed :=
  let checks := paths.map (file files options)
  let failed := (checks.filter fun c => !c.isOk).length
  { output := String.join (checks.map (·.output)) ++ summary checks.length failed
    failure :=
      if 0 < failed then some (.template root (failed.repr ++ " templates have errors"))
      else none }

/-- Checks a file, or all JSON files below a directory. -/
def input (files : Files) (options : Options) (path : String) (recursive : Bool) : Printed :=
  match if recursive then files.below? path else none with
  | some paths => all files options path (paths.filter hasJsonExtension)
  | none => file files options path

end Check

end TemplateVars
