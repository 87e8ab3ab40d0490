/-
Why tokens are no expression.

Design notes: an error has a place, that of the token at which reading stopped,
and a cause.  When that token is `invalid` the cause is always its own.  The
cause `outOfSteps` belongs to the bound on nested calls and not to the grammar.
-/
import TemplateVars.Token.Basic

namespace TemplateVars

/-- A mark that has to stand at some place of an expression. -/
inductive Expected where
  | conditionalColon
  | memberBracket
  | argumentsClose
  | groupClose
  | parametersOpen
  | parametersClose
  | arrow
  | bodyOpen
  | restBracket
  | patternComma
  | objectPatternClose
  | arrayComma
  | objectClose
  | keyBracket
  deriving DecidableEq, Repr

namespace Expected

def mark : Expected → Punctuator
  | conditionalColon => .colon
  | memberBracket => .rightBracket
  | argumentsClose => .rightParen
  | groupClose => .rightParen
  | parametersOpen => .leftParen
  | parametersClose => .rightParen
  | arrow => .arrow
  | bodyOpen => .leftBrace
  | restBracket => .rightBracket
  | patternComma => .comma
  | objectPatternClose => .rightBrace
  | arrayComma => .comma
  | objectClose => .rightBrace
  | keyBracket => .rightBracket

def message : Expected → String
  | conditionalColon => "Expected ':' in conditional expression"
  | memberBracket => "Expected ']' after computed member"
  | argumentsClose => "Expected ')' after arguments"
  | groupClose => "Expected ')' after expression"
  | parametersOpen => "Expected '(' before parameters"
  | parametersClose => "Expected ')' after parameters"
  | arrow => "Expected '=>' after parameters"
  | bodyOpen => "Expected '\x7b' before function body"
  | restBracket => "Expected ']' after rest element"
  | patternComma => "Expected ',' or ']' in array pattern"
  | objectPatternClose => "Expected '\x7d' after object pattern"
  | arrayComma => "Expected ',' or ']' in array literal"
  | objectClose => "Expected '\x7d' after object literal"
  | keyBracket => "Expected ']' after computed key"

end Expected

/-- What is wrong with a token at its place. -/
inductive SyntaxError where
  | lexical (error : LexError)
  | tooDeep
  | expected (wanted : Expected) (got : TokenKind)
  /-- No expression starts with the token. -/
  | unexpected (got : TokenKind)
  /-- An expression ends here, but the text does not. -/
  | trailing (got : TokenKind)
  /-- An expression ends in front of text that is no token. -/
  | trailingInvalid
  | memberName (got : TokenKind)
  | newTarget
  | parameter (got : TokenKind)
  | propertyName (got : TokenKind)
  | propertyColon
  | patternColon
  | methodParen
  | substitutionEnd
  | templateStart (got : TokenKind)
  | unterminatedBody
  | outOfSteps
  deriving DecidableEq, Repr

def SyntaxError.message : SyntaxError → String
  | lexical error => error.message
  | tooDeep => "Expression nested too deeply"
  | expected wanted got => wanted.message ++ ", got " ++ got.display
  | unexpected got => "Unexpected " ++ got.display
  | trailing got => "Unexpected " ++ got.display ++ " after expression"
  | trailingInvalid => "Unexpected input"
  | memberName got => "Expected property name after '.', got " ++ got.display
  | newTarget => "Expected 'target' after 'new.'"
  | parameter got => "Unexpected " ++ got.display ++ " in parameter list"
  | propertyName got => "Unexpected " ++ got.display ++ " in property name"
  | propertyColon => "Expected ':' after property name"
  | patternColon => "Expected ':' in object pattern"
  | methodParen => "Expected '(' after method name"
  | substitutionEnd => "Expected '\x7d' after template substitution"
  | templateStart got => "Expected template literal, got " ++ got.display
  | unterminatedBody => "Unterminated function body"
  | outOfSteps => "Too many nested calls"

/-- What is wrong, and where. -/
structure ParseError where
  line : Nat
  column : Nat
  cause : SyntaxError
  deriving DecidableEq, Repr

end TemplateVars
