/-
The rules for array, object and template literals.

Design notes: `get`, `set` and `async` are modifiers of an object member when
another property name follows, and property names otherwise.  A `*` in front of
a method's name is read but not kept.
-/
import TemplateVars.Grammar.Expression
import TemplateVars.Grammar.Function

namespace TemplateVars

/-- Whether a token may start the name of a method behind a modifier. -/
def TokenKind.startsMethodName : TokenKind → Bool
  | identifier _ => true
  | string _ => true
  | number _ => true
  | bigint _ => true
  | punct .leftBracket => true
  | punct .star => true
  | k => k.keywordText?.isSome

namespace Rule

open Parse

def arrayLiteral (r : Rules) : Parse Expr := do
  advance
  let elements ← collect do
    if ← accept .rightBracket then return .stop
    if ← accept .comma then return .more none
    let element ← spreadable r
    if !(← check .rightBracket) then expect .arrayComma
    return .more (some element)
  return .array elements

def objectLiteral (r : Rules) : Parse Expr := do
  advance
  let properties ← collect do
    if ← check .rightBrace then return .stop
    let property ← r.objectMember
    if ← accept .comma then return .more property else return .last property
  expect .objectClose
  return .object properties

/-- The kind of member that a word announces. -/
def modifierKind? (word : String) : Option PropertyKind :=
  if word = "get" then some .get
  else if word = "set" then some .set
  else if word = "async" then some .method
  else none

/-- Takes a modifier if there is one; the flag tells `async`. -/
def modifier : Parse (PropertyKind × Bool) := do
  match ← kind with
  | .identifier word =>
    match modifierKind? word with
    | some propertyKind =>
      if (← ahead 1).kind.startsMethodName then
        advance
        return (propertyKind, propertyKind = .method)
      else return (.init, false)
    | none => return (.init, false)
  | _ => return (.init, false)

/-- The name a method has from its key. -/
def methodName? : Key → Option String
  | .fixed name => some name
  | .computed _ => none

/-- The value of a property whose name stands alone, perhaps with a default. -/
def shorthandValue (r : Rules) (name : String) : Parse Expr := do
  if (← kind) = .assign .plain then
    advance
    return .assign .plain (.identifier name) (← r.assignment)
  else return .identifier name

/-- What follows the name of an object member. -/
def memberValue (r : Rules) (propertyKind : PropertyKind) (isAsync generator : Bool)
    (key : Key) (shorthand : Option String) : Parse Property := do
  if ← check .leftParen then
    let params ← r.parameters
    skipBlock
    let method := .function .expression isAsync (methodName? key) params .block
    return .keyed key method (if propertyKind = .init then .method else propertyKind) false
  if propertyKind ≠ .init ∨ generator then fail .methodParen
  if ← accept .colon then
    return .keyed key (← r.assignment) .init false
  match shorthand with
  | some name => return .keyed key (← shorthandValue r name) .init true
  | none => fail .propertyColon

def objectMember (r : Rules) : Parse Property := do
  if ← accept .ellipsis then return .spread (← r.assignment)
  let (propertyKind, isAsync) ← modifier
  let generator ← accept .star
  let (key, shorthand) ← r.propertyKey
  memberValue r propertyKind isAsync generator key shorthand

/-- A name that is written out in a property. -/
def fixedKey? : TokenKind → Option String
  | .string value => some value
  | .number value => some value.text
  | .bigint digits => some digits
  | k => k.keywordText?

def propertyKey (r : Rules) : Parse (Key × Option String) := do
  let token ← kind
  match token with
  | .identifier name =>
    advance
    return (.fixed name, some name)
  | .punct .leftBracket =>
    advance
    let expression ← r.assignment
    expect .keyBracket
    return (.computed expression, none)
  | _ =>
    match fixedKey? token with
    | some name =>
      advance
      return (.fixed name, none)
    | none => fail (.propertyName token)

/-- A substitution with the piece behind it. -/
def substitution (r : Rules) : Parse (Item (Expr × String)) := do
  let value ← r.sequence
  match ← kind with
  | .templateMiddle cooked =>
    advance
    return .more (value, cooked)
  | .templateTail cooked =>
    advance
    return .last (value, cooked)
  | _ => fail .substitutionEnd

def templateLiteral (r : Rules) : Parse Expr := do
  let token ← kind
  match token with
  | .template cooked =>
    advance
    return .template [cooked] []
  | .templateHead cooked =>
    advance
    let parts ← collect (substitution r)
    return .template (cooked :: parts.map (·.2)) (parts.map (·.1))
  | _ => fail (.templateStart token)

end Rule

end TemplateVars
