/-
The program as a function: from what it sees of the file system and its
arguments to what it prints, what it writes and how it ends.

* `run` is the whole program, `Directory.run` also carries out what it writes.

Design notes: arguments that are not accepted end a run before anything is
read, a configuration that cannot be used before the command starts.  A report
is complete before its file is created.  One text, `usage`, stands for all that is
printed about how to call the program: each level's help, and what is wrong with
arguments that are not accepted.
-/
import TemplateVars.Command.Arguments
import TemplateVars.Command.Check
import TemplateVars.Config.Load
import TemplateVars.Files.Directory

namespace TemplateVars

/-- A file to be written. -/
structure SavedFile where
  path : String
  content : String
  deriving DecidableEq, Repr

/-- What a run of the program does. -/
structure Outcome where
  /-- The exit status. -/
  status : Nat
  output : String := ""
  /-- What goes to standard error. -/
  errors : String := ""
  saved : Option SavedFile := none
  deriving DecidableEq, Repr

namespace Outcome

/-- The end of a run that printed some text and perhaps failed. -/
def ofPrinted (p : Printed) : Outcome :=
  match p.failure with
  | none => { status := 0, output := p.output }
  | some failure => { status := 1, output := p.output, errors := "Error: " ++ failure.text ++ "\n" }

def ofFailure (f : Failure) : Outcome := ofPrinted { output := "", failure := some f }

end Outcome

namespace Command

/-- Names in one of the two forms. -/
def showNames (form : OutputForm) (names : List String) : String :=
  match form with
  | .text => String.join (names.map (· ++ "\n"))
  | .json => (Json.strings names).compact ++ "\n"

def showReport (form : OutputForm) (r : Report) : String :=
  match form with
  | .text => r.text
  | .json => r.document

/-- The free variables of one expression. -/
def runVars (options : Options) (form : OutputForm) (expression : String) : Outcome :=
  match analyze options expression with
  | .ok names => .ofPrinted { output := showNames form names.toList }
  | .error e => .ofFailure e.toFailure

/-- The report on a template, printed or written to a file. -/
def runReport (files : Files) (options : Options) (form : OutputForm) (path : String)
    (target : Option String) : Outcome :=
  match Template.load files path with
  | .error failure => .ofFailure failure
  | .ok t =>
    let text := showReport form (Report.ofTemplate options t)
    match target with
    | none => .ofPrinted { output := text }
    | some target =>
      match files.refusal? target with
      | some e => .ofFailure (.io e.text)
      | none =>
        { status := 0, output := "✅ Report saved to " ++ target ++ "\n"
          saved := some { path := target, content := text } }

/-- Runs a command under a configuration; a form on the command line counts more
than that of the configuration. -/
def run (files : Files) (config : Config) (command : Command) : Outcome :=
  let formOf (form : Option OutputForm) : OutputForm := (form.or config.form).getD .text
  match command with
  | .vars expression form => runVars config.options (formOf form) expression
  | .report path form target => runReport files config.options (formOf form) path target
  | .check path recursive => .ofPrinted (Check.input files config.options path recursive)

end Command

namespace Invocation

/-- The configuration of a run. -/
def loadConfig (files : Files) (i : Invocation) : Except Failure Config :=
  match i.config with
  | none => .ok {}
  | some path => Config.load files path

def run (files : Files) (i : Invocation) : Outcome :=
  match i.loadConfig files with
  | .error failure => .ofFailure failure
  | .ok config =>
    match i.command with
    | none =>
      .ofPrinted
        { output := "No subcommand specified. Use --help for usage information.\n" }
    | some command => command.run files config

end Invocation

/-- The program's name and version. -/
def versionLine : String := "exprscan 0.1.0\n"

/-- How the program is called. -/
def usage : String :=
  "usage: exprscan [-c FILE] [-v] [-h] [-V]\n" ++
    "       exprscan vars EXPRESSION [-f text|json]\n" ++
    "       exprscan report TEMPLATE [-f text|json] [-o FILE]\n" ++
    "       exprscan check INPUT [-r]\n"

/-- The program. -/
def run (files : Files) (arguments : List String) : Outcome :=
  match Request.ofArguments? arguments with
  | none => { status := 2, errors := usage }
  | some .help => { status := 0, output := usage }
  | some .version => { status := 0, output := versionLine }
  | some (.run invocation) => invocation.run files

/-- Runs the program in a directory, which may come out with one more file. -/
def Directory.run (d : Directory) (arguments : List String) : Outcome × Directory :=
  let outcome := TemplateVars.run d.view arguments
  match outcome.saved with
  | some file => (outcome, d.save file.path file.content)
  | none => (outcome, d)

end TemplateVars
