/-
The rules for functions: groups and arrows, parameters and the patterns that
take them apart, bodies.

Design notes: whether parentheses enclose an expression or parameters is decided
by looking for `=>` behind the parenthesis that closes them, before any of it is
read.  A body between braces is passed over by counting braces.
-/
import TemplateVars.Grammar.Rules

namespace TemplateVars

/-- Whether a token opens a bracket of any of the three kinds. -/
def TokenKind.opensBracket : TokenKind → Bool
  | punct .leftParen => true
  | punct .leftBracket => true
  | punct .leftBrace => true
  | _ => false

/-- Whether a token closes a bracket of any of the three kinds. -/
def TokenKind.closesBracket : TokenKind → Bool
  | punct .rightParen => true
  | punct .rightBracket => true
  | punct .rightBrace => true
  | _ => false

/-- Whether `=>` comes next, on the same line. -/
def arrowNext : List Token → Bool
  | [] => false
  | token :: _ => token.kind = .punct .arrow && !token.newlineBefore

/-- Whether `=>` follows the bracket that closes the outermost open one. -/
def arrowAfterClosing : Nat → List Token → Bool
  | _, [] => false
  | opened, token :: rest =>
    if token.kind.opensBracket then arrowAfterClosing (opened + 1) rest
    else if token.kind.closesBracket then
      if opened - 1 = 0 then arrowNext rest else arrowAfterClosing (opened - 1) rest
    else if token.kind.isTerminal then false
    else arrowAfterClosing opened rest

/-- Whether the group that opens at the first token is followed by `=>`. -/
def arrowFollows : List Token → Bool
  | [] => false
  | token :: rest => token.kind = .punct .leftParen && arrowAfterClosing 0 (token :: rest)

/-- The tokens behind the brace that closes a block with some more braces open
in it, or the terminal token that comes before that brace. -/
def closeBlock : Nat → List Token → Bool × List Token
  | _, [] => (false, [])
  | opened, token :: rest =>
    if token.kind = .punct .leftBrace then closeBlock (opened + 1) rest
    else if token.kind = .punct .rightBrace then
      if opened = 0 then (true, rest) else closeBlock (opened - 1) rest
    else if token.kind.isTerminal then (false, token :: rest)
    else closeBlock opened rest

namespace Rule

open Parse

/-- Passes over a block of statements. -/
def skipBlock : Parse Unit := do
  expect .bodyOpen
  let s ← get
  let (closed, rest) := closeBlock 0 s.rest
  set { s with rest := rest }
  if closed then return else fail .unterminatedBody

def asyncFunction? (r : Rules) : Parse (Option Expr) := do
  let next ← ahead 1
  if next.newlineBefore then return none
  match next.kind with
  | .keyword .function =>
    advance
    return some (← r.functionExpression true)
  | .identifier name =>
    if (← ahead 2).kind = .punct .arrow then
      advance
      advance
      advance
      return some (← r.arrowBody true [.identifier name])
    else return none
  | .punct .leftParen =>
    if arrowFollows ((← get).rest.drop 1) then
      advance
      return some (← r.parenthesized true)
    else return none
  | _ => return none

def parenthesized (r : Rules) (isAsync : Bool) : Parse Expr := do
  if arrowFollows (← get).rest then
    let params ← r.parameters
    expect .arrow
    r.arrowBody isAsync params
  else
    advance
    let inner ← r.sequence
    expect .groupClose
    return inner

def arrowBody (r : Rules) (isAsync : Bool) (params : List Pattern) : Parse Expr := do
  if ← check .leftBrace then
    skipBlock
    return .function .arrow isAsync none params .block
  else
    return .function .arrow isAsync none params (.expression (← r.assignment))

/-- The name of a function, if it has one. -/
def functionName? : Parse (Option String) := do
  match ← kind with
  | .identifier name =>
    advance
    return some name
  | _ => return none

def functionExpression (r : Rules) (isAsync : Bool) : Parse Expr := do
  advance
  let _ ← accept .star
  let name ← functionName?
  let params ← r.parameters
  skipBlock
  return .function .expression isAsync name params .block

def parameters (r : Rules) : Parse (List Pattern) := do
  expect .parametersOpen
  let params ← collect do
    if ← check .rightParen then return .stop
    if ← accept .ellipsis then return .last (.rest (← r.bindingTarget))
    let param ← r.bindingElement
    if ← accept .comma then return .more param else return .last param
  expect .parametersClose
  return params

/-- A target with the default that may follow it. -/
def withDefault (r : Rules) (target : Pattern) : Parse Pattern := do
  if (← kind) = .assign .plain then
    advance
    return .withDefault target (← r.assignment)
  else return target

def bindingElement (r : Rules) : Parse Pattern := do
  withDefault r (← r.bindingTarget)

def bindingTarget (r : Rules) : Parse Pattern := do
  let token ← kind
  match token with
  | .identifier name =>
    advance
    return .identifier name
  | .punct .leftBracket => nested r.arrayPattern
  | .punct .leftBrace => nested r.objectPattern
  | _ => fail (.parameter token)

def arrayPattern (r : Rules) : Parse Pattern := do
  advance
  let elements ← collect do
    if ← accept .rightBracket then return .stop
    if ← accept .comma then return .more none
    if ← accept .ellipsis then
      let target ← r.bindingTarget
      expect .restBracket
      return .last (some (.rest target))
    let element ← r.bindingElement
    if !(← check .rightBracket) then expect .patternComma
    return .more (some element)
  return .array elements

/-- One property of an object pattern. -/
def patternProperty (r : Rules) : Parse PatternProperty := do
  if ← accept .ellipsis then return .rest (← r.bindingTarget)
  let (key, shorthand) ← r.propertyKey
  if ← accept .colon then return .keyed key (← r.bindingElement)
  match shorthand with
  | some name => return .keyed key (← withDefault r (.identifier name))
  | none => fail .patternColon

def objectPattern (r : Rules) : Parse Pattern := do
  advance
  let properties ← collect do
    if ← check .rightBrace then return .stop
    let property ← patternProperty r
    if ← accept .comma then return .more property else return .last property
  expect .objectPatternClose
  return .object properties

end Rule

end TemplateVars
