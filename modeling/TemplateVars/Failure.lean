/-
What can go wrong for a user of the program, with its wording.
-/
import TemplateVars.Grammar.Error

namespace TemplateVars

/-- A failure as the user sees it. -/
inductive Failure where
  | io (text : String)
  /-- An expression cannot be read. -/
  | parse (line column : Nat) (message : String)
  /-- A template file is not as it should be. -/
  | template (file message : String)
  | config (message : String)
  | notFound (path : String)
  | invalidFormat (message : String)
  deriving DecidableEq, Repr

namespace Failure

def text : Failure → String
  | io text => "IO error: " ++ text
  | parse line column message =>
    "Parse error at line " ++ line.repr ++ ", column " ++ column.repr ++ ": " ++ message
  | template file message => "Template error in " ++ file ++ ": " ++ message
  | config message => "Configuration error: " ++ message
  | notFound path => "File not found: " ++ path
  | invalidFormat message => "Invalid format: " ++ message

/-- Whether an expression could not be read. -/
def isParse : Failure → Bool
  | parse .. => true
  | _ => false

end Failure

def ParseError.toFailure (e : ParseError) : Failure := .parse e.line e.column e.cause.message

/-- The wording of an error in an expression. -/
def ParseError.text (e : ParseError) : String := e.toFailure.text

end TemplateVars
