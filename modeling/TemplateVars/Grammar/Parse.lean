/-
From tokens to expression trees.

* `Parse.expression` reads one expression and leaves what follows;
* `Parse.complete` reads an expression that all tokens belong to;
* `parse` reads the expression at the start of a text.

Design notes: `rules n` follows chains of at most `n` nested calls.  Every cycle
among the rules either opens a nesting level or raises the precedence of an
infix operator, so a level costs fewer than `callsPerLevel` calls, and the steps
given to `grammar` suffice for all inputs.
-/
import TemplateVars.Grammar.Literal
import TemplateVars.Token.Lexer

namespace TemplateVars

/-- The rules whose calls go to the given ones. -/
def Rules.step (r : Rules) : Rules where
  sequence := Rule.sequence r
  assignment := Rule.assignment r
  conditional := Rule.conditional r
  binary := Rule.binary r
  exponent := Rule.exponent r
  unary := Rule.unary r
  operand := Rule.operand r
  suffixes := Rule.suffixes r
  construction := Rule.construction r
  arguments := Rule.arguments r
  primary := Rule.primary r
  asyncFunction? := Rule.asyncFunction? r
  parenthesized := Rule.parenthesized r
  arrowBody := Rule.arrowBody r
  functionExpression := Rule.functionExpression r
  parameters := Rule.parameters r
  bindingElement := Rule.bindingElement r
  bindingTarget := Rule.bindingTarget r
  arrayPattern := Rule.arrayPattern r
  objectPattern := Rule.objectPattern r
  arrayLiteral := Rule.arrayLiteral r
  objectLiteral := Rule.objectLiteral r
  objectMember := Rule.objectMember r
  propertyKey := Rule.propertyKey r
  templateLiteral := Rule.templateLiteral r

namespace Grammar

/-- The rules for chains of at most `n` nested calls. -/
def rules : Nat → Rules
  | 0 => .exhausted
  | n + 1 => (rules n).step

/-- More calls than one nesting level takes. -/
def callsPerLevel : Nat := 32

/-- The grammar. -/
def grammar : Rules := rules (callsPerLevel * (maxDepth + 1))

end Grammar

namespace Parse

/-- Reads one expression; the token behind it is not taken, but it has to be
one. -/
def expression : Parse Expr := do
  let e ← Grammar.grammar.sequence
  match ← kind with
  | .invalid _ => fail .trailingInvalid
  | _ => return e

/-- Reads an expression that the text ends with. -/
def complete : Parse Expr := do
  let e ← expression
  let token ← kind
  if token = .eof then return e else fail (.trailing token)

/-- Runs a reader: its value or failure, and the stream where it stopped. -/
def run {α : Type} (p : Parse α) (s : Stream) : Except ParseError α × Stream :=
  match p s with
  | .ok a t => (.ok a, t)
  | .error e t => (.error e, t)

end Parse

/-- The expression at the start of a text; what follows it is ignored. -/
def parse (source : String) : Except ParseError Expr :=
  (Parse.expression.run { rest := tokenize source }).1

end TemplateVars
