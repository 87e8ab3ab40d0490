/-
The rules of the expression grammar, as a record with one reader for each.

Design notes: the rules call each other in many cycles.  Each is written as a
function of such a record and calls another rule through it; a chain of nested
calls is then tied off by a count of steps (`Grammar.rules`), which the depth
limit keeps from ever running out.
-/
import TemplateVars.Expr.Basic
import TemplateVars.Grammar.Stream

namespace TemplateVars

/-- One reader for each rule of the grammar. -/
structure Rules where
  /-- Expressions between commas. -/
  sequence : Parse Expr
  /-- One expression without a comma. -/
  assignment : Parse Expr
  conditional : Parse Expr
  /-- Operands between infix operators of at least the given precedence. -/
  binary (minPrecedence : Nat) : Parse Expr
  /-- Operands between `**`. -/
  exponent : Parse Expr
  unary : Parse Expr
  /-- A primary expression or construction with everything behind it. -/
  operand : Parse Expr
  /-- Members, calls and templates behind an object; calls only if allowed. -/
  suffixes (allowCalls : Bool) (object : Expr) : Parse Expr
  /-- From `new` on. -/
  construction : Parse Expr
  arguments : Parse (List Expr)
  primary : Parse Expr
  /-- A function that starts with `async`; nothing if that is just a name. -/
  asyncFunction? : Parse (Option Expr)
  /-- A group, or an arrow function with parameters in parentheses. -/
  parenthesized (isAsync : Bool) : Parse Expr
  arrowBody (isAsync : Bool) (params : List Pattern) : Parse Expr
  functionExpression (isAsync : Bool) : Parse Expr
  parameters : Parse (List Pattern)
  /-- A binding target with or without a default. -/
  bindingElement : Parse Pattern
  bindingTarget : Parse Pattern
  arrayPattern : Parse Pattern
  objectPattern : Parse Pattern
  arrayLiteral : Parse Expr
  objectLiteral : Parse Expr
  objectMember : Parse Property
  /-- The name of a property, and the variable it stands for if it stands
  alone. -/
  propertyKey : Parse (Key × Option String)
  templateLiteral : Parse Expr

/-- The rules when no step is left. -/
def Rules.exhausted : Rules where
  sequence := .fail .outOfSteps
  assignment := .fail .outOfSteps
  conditional := .fail .outOfSteps
  binary _ := .fail .outOfSteps
  exponent := .fail .outOfSteps
  unary := .fail .outOfSteps
  operand := .fail .outOfSteps
  suffixes _ _ := .fail .outOfSteps
  construction := .fail .outOfSteps
  arguments := .fail .outOfSteps
  primary := .fail .outOfSteps
  asyncFunction? := .fail .outOfSteps
  parenthesized _ := .fail .outOfSteps
  arrowBody _ _ := .fail .outOfSteps
  functionExpression _ := .fail .outOfSteps
  parameters := .fail .outOfSteps
  bindingElement := .fail .outOfSteps
  bindingTarget := .fail .outOfSteps
  arrayPattern := .fail .outOfSteps
  objectPattern := .fail .outOfSteps
  arrayLiteral := .fail .outOfSteps
  objectLiteral := .fail .outOfSteps
  objectMember := .fail .outOfSteps
  propertyKey := .fail .outOfSteps
  templateLiteral := .fail .outOfSteps

end TemplateVars
