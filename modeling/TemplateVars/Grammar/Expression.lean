/-
The rules for operators, chains of members and calls, and primary expressions.

Design notes: assignment, unary operators, `**` and `new` open a nesting level
where they recur; infix chains and chains of members do not, so they may be of
any length.
-/
import TemplateVars.Grammar.Rules

namespace TemplateVars

/-- An infix operator between its operands. -/
def InfixOperator.apply : InfixOperator → Expr → Expr → Expr
  | binary op, left, right => .binary op left right
  | logical op, left, right => .logical op left right

namespace Rule

open Parse

def sequence (r : Rules) : Parse Expr := do
  let first ← r.assignment
  let rest ← collect do
    if ← accept .comma then return .more (← r.assignment) else return .stop
  match rest with
  | [] => return first
  | _ => return .sequence (first :: rest)

def assignment (r : Rules) : Parse Expr := nested do
  let target ← r.conditional
  match ← kind with
  | .assign op =>
    advance
    return .assign op target (← r.assignment)
  | _ => return target

def conditional (r : Rules) : Parse Expr := do
  let test ← r.binary 1
  if ← accept .question then
    let consequent ← r.assignment
    expect .conditionalColon
    return .conditional test consequent (← r.assignment)
  else return test

/-- An operator of enough precedence with its right operand, behind a left
one. -/
def infixLink (r : Rules) (minPrecedence : Nat) (left : Expr) : Parse (Option Expr) := do
  match (← kind).infixOperator? with
  | some (precedence, op) =>
    if precedence < minPrecedence then return none
    advance
    return some (op.apply left (← r.binary (precedence + 1)))
  | none => return none

def binary (r : Rules) (minPrecedence : Nat) : Parse Expr := do
  chain (infixLink r minPrecedence) (← r.exponent)

def exponent (r : Rules) : Parse Expr := do
  let base ← r.unary
  if ← accept .starStar then
    return .binary .exponent base (← nested r.exponent)
  else return base

/-- An update operator behind an operand; none stands on a new line. -/
def postfixUpdate (argument : Expr) : Parse Expr := do
  let token ← ahead 0
  match token.kind.updateOperator? with
  | some op =>
    if token.newlineBefore then return argument
    advance
    return .update op .after argument
  | none => return argument

def unary (r : Rules) : Parse Expr := do
  let token ← kind
  match token.unaryOperator?, token.updateOperator? with
  | some op, _ =>
    advance
    return .unary op (← nested r.unary)
  | none, some op =>
    advance
    return .update op .before (← nested r.unary)
  | none, none => postfixUpdate (← r.operand)

def operand (r : Rules) : Parse Expr := do
  let isNew := (← kind) = .keyword .new
  let base ← if isNew then r.construction else r.primary
  r.suffixes true base

/-- The name behind `.` or `?.`; keywords are names there. -/
def memberName : Parse String := do
  let token ← kind
  match token, token.keywordText? with
  | .identifier name, _ =>
    advance
    return name
  | _, some word =>
    advance
    return word
  | _, none => fail (.memberName token)

/-- A property between brackets, from the opening one on. -/
def computedMember (r : Rules) : Parse Key := do
  advance
  let property ← r.sequence
  expect .memberBracket
  return .computed property

/-- One link of a chain of members, calls and templates, if one follows. -/
def suffix (r : Rules) (allowCalls : Bool) (object : Expr) : Parse (Option Expr) := do
  match ← kind with
  | .punct .dot =>
    advance
    return some (.member object (.fixed (← memberName)) false)
  | .punct .questionDot =>
    if !allowCalls then return none
    advance
    match ← kind with
    | .punct .leftParen => return some (.call object (← r.arguments) true)
    | .punct .leftBracket => return some (.member object (← computedMember r) true)
    | _ => return some (.member object (.fixed (← memberName)) true)
  | .punct .leftBracket => return some (.member object (← computedMember r) false)
  | .punct .leftParen =>
    if !allowCalls then return none
    return some (.call object (← r.arguments) false)
  | .template _ => return some (.tagged object (← r.templateLiteral))
  | .templateHead _ => return some (.tagged object (← r.templateLiteral))
  | _ => return none

def suffixes (r : Rules) (allowCalls : Bool) (object : Expr) : Parse Expr :=
  chain (suffix r allowCalls) object

def construction (r : Rules) : Parse Expr := nested do
  advance
  if ← accept .dot then
    if (← kind) = .identifier "target" then
      advance
      return .newTarget
    else fail .newTarget
  else
    let isNew := (← kind) = .keyword .new
    let base ← if isNew then r.construction else r.primary
    let callee ← r.suffixes false base
    if ← check .leftParen then return .new callee (← r.arguments)
    else return .new callee []

/-- An element of an array literal or an argument, with or without `...`. -/
def spreadable (r : Rules) : Parse Expr := do
  if ← accept .ellipsis then return .spread (← r.assignment)
  else r.assignment

def arguments (r : Rules) : Parse (List Expr) := do
  advance
  let values ← collect do
    if ← check .rightParen then return .stop
    let value ← spreadable r
    if ← accept .comma then return .more value else return .last value
  expect .argumentsClose
  return values

/-- A name, or an arrow function whose only parameter it is. -/
def nameOrArrow (r : Rules) (name : String) : Parse Expr := do
  let next ← ahead 1
  advance
  if next.kind = .punct .arrow ∧ !next.newlineBefore then
    advance
    r.arrowBody false [.identifier name]
  else return .identifier name

def primary (r : Rules) : Parse Expr := do
  let token ← kind
  let literal (value : Literal) : Parse Expr := do
    advance
    return .literal value
  match token with
  | .identifier name =>
    let function? ← if name = "async" then r.asyncFunction? else pure none
    match function? with
    | some function => return function
    | none => nameOrArrow r name
  | .number value => literal (.number value)
  | .bigint digits => literal (.bigint digits)
  | .string value => literal (.string value)
  | .regex pattern flags => literal (.regex pattern flags)
  | .keyword .truth => literal (.boolean true)
  | .keyword .falsity => literal (.boolean false)
  | .keyword .null => literal .null
  | .keyword .this =>
    advance
    return .this
  | .keyword .super =>
    advance
    return .super
  | .template _ => r.templateLiteral
  | .templateHead _ => r.templateLiteral
  | .punct .leftParen => r.parenthesized false
  | .punct .leftBracket => r.arrayLiteral
  | .punct .leftBrace => r.objectLiteral
  | .keyword .function => r.functionExpression false
  | _ => fail (.unexpected token)

end Rule

end TemplateVars
