/-
The free variables of expressions.

* `Collector.visit` adds those of one more tree to the ones found so far;
* `freeVariables` are those of a single tree;
* `analyze` reads an expression first, with or without its braces.

Design notes: a name is free where it is read outside every function that binds
it, and reported unless it is built in.  A text of blanks has no variables and
is no failure.
-/
import TemplateVars.Analysis.NameSet
import TemplateVars.Analysis.Options
import TemplateVars.Analysis.Walk
import TemplateVars.Grammar.Parse
import TemplateVars.Text.Trim

namespace TemplateVars

/-- Finds the free variables of one tree after the other. -/
structure Collector where
  options : Options
  scopes : Scopes := []
  found : NameSet := ∅

namespace Collector

/-- Takes note of an event: a name that is read counts unless it is built in or
bound. -/
def record (options : Options) (found : NameSet) : Event → NameSet
  | .reference name scopes =>
    if options.isBuiltin name || scopes.any (·.contains name) then found
    else found.insert name
  | _ => found

def visit (c : Collector) (e : Expr) : Collector :=
  let (events, scopes) := walk [.expr e] c.scopes
  { c with scopes := scopes, found := events.foldl (record c.options) c.found }

end Collector

/-- The free variables of a tree. -/
def freeVariables (options : Options) (e : Expr) : NameSet :=
  (Collector.visit { options := options } e).found

/-- What is left of an expression without its braces. -/
def sourceOf (expression : String) : String :=
  String.ofList (Text.stripDelimiters expression.toList)

/-- Whether an expression is nothing but white space. -/
def isBlankSource (source : String) : Bool := Text.isBlankText source.toList

/-- The free variables of an expression, or why it is none. -/
def analyze (options : Options) (expression : String) : Except ParseError NameSet :=
  let source := sourceOf expression
  if isBlankSource source then .ok ∅
  else (parse source).map (freeVariables options)

end TemplateVars
