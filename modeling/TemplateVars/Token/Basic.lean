/-
Tokens of expression text.

* `TokenKind.spelling?` — the source text of the kinds that have only one;
* `TokenKind.display` — how a token is named in messages.

Design notes: a failure to read a token is a token itself, `invalid`, so that a
reader of tokens fails only when it gets there; it carries the cause, and the
wording is `LexError.message`.  Words that never start or continue an expression
are `reserved` and keep their spelling.  A template literal is cut into pieces
at its substitutions, each piece holding its text with the escapes decoded.
-/
import TemplateVars.Number.Shortest

namespace TemplateVars

/-- The keywords that have a meaning in expressions. -/
inductive Keyword where
  | truth | falsity | null | this | super | typeof | void | delete | new | function
  | memberOf | instanceOf
  deriving DecidableEq, Repr

namespace Keyword

def spelling : Keyword → String
  | truth => "true"
  | falsity => "false"
  | null => "null"
  | this => "this"
  | super => "super"
  | typeof => "typeof"
  | void => "void"
  | delete => "delete"
  | new => "new"
  | function => "function"
  | memberOf => "in"
  | instanceOf => "instanceof"

def all : List Keyword :=
  [truth, falsity, null, this, super, typeof, void, delete, new, function, memberOf, instanceOf]

end Keyword

/-- The words that are kept from use as names without having a meaning in
expressions. -/
def reservedWords : List String :=
  ["break", "case", "catch", "class", "const", "continue", "debugger", "default", "do", "else",
   "enum", "export", "extends", "finally", "for", "if", "import", "return", "switch", "throw",
   "try", "var", "while", "with"]

/-- Punctuators, assignment operators apart. -/
inductive Punctuator where
  | leftParen | rightParen | leftBracket | rightBracket | leftBrace | rightBrace
  | comma | colon | semicolon | dot | ellipsis | question | questionDot | arrow
  | plus | minus | star | starStar | slash | percent | plusPlus | minusMinus
  | less | greater | lessEqual | greaterEqual | equalEqual | notEqual | strictEqual
  | strictNotEqual
  | shiftLeft | shiftRight | unsignedShiftRight | ampersand | pipe | caret | bang | tilde
  | ampAmp | pipePipe | questionQuestion
  deriving DecidableEq, Repr

namespace Punctuator

def spelling : Punctuator → String
  | leftParen => "("
  | rightParen => ")"
  | leftBracket => "["
  | rightBracket => "]"
  | leftBrace => "\x7b"
  | rightBrace => "\x7d"
  | comma => ","
  | colon => ":"
  | semicolon => ";"
  | dot => "."
  | ellipsis => "..."
  | question => "?"
  | questionDot => "?."
  | arrow => "=>"
  | plus => "+"
  | minus => "-"
  | star => "*"
  | starStar => "**"
  | slash => "/"
  | percent => "%"
  | plusPlus => "++"
  | minusMinus => "--"
  | less => "<"
  | greater => ">"
  | lessEqual => "<="
  | greaterEqual => ">="
  | equalEqual => "=="
  | notEqual => "!="
  | strictEqual => "==="
  | strictNotEqual => "!=="
  | shiftLeft => "<<"
  | shiftRight => ">>"
  | unsignedShiftRight => ">>>"
  | ampersand => "&"
  | pipe => "|"
  | caret => "^"
  | bang => "!"
  | tilde => "~"
  | ampAmp => "&&"
  | pipePipe => "||"
  | questionQuestion => "??"

/-- Every punctuator, one that begins with another before that other. -/
def all : List Punctuator :=
  [unsignedShiftRight, ellipsis, strictEqual, strictNotEqual,
   questionDot, questionQuestion, arrow, starStar, plusPlus, minusMinus, lessEqual,
   greaterEqual, equalEqual, notEqual, shiftLeft, shiftRight, ampAmp, pipePipe,
   leftParen, rightParen, leftBracket, rightBracket, leftBrace, rightBrace, comma, colon,
   semicolon, dot, question, plus, minus, star, slash, percent, less, greater, ampersand,
   pipe, caret, bang, tilde]

end Punctuator

/-- The operators that assign. -/
inductive AssignOperator where
  | plain | add | subtract | multiply | exponent | divide | remainder
  | shiftLeft | shiftRight | unsignedShiftRight | bitAnd | bitOr | bitXor
  | and | or | nullish
  deriving DecidableEq, Repr

namespace AssignOperator

def spelling : AssignOperator → String
  | plain => "="
  | add => "+="
  | subtract => "-="
  | multiply => "*="
  | exponent => "**="
  | divide => "/="
  | remainder => "%="
  | shiftLeft => "<<="
  | shiftRight => ">>="
  | unsignedShiftRight => ">>>="
  | bitAnd => "&="
  | bitOr => "|="
  | bitXor => "^="
  | and => "&&="
  | or => "||="
  | nullish => "??="

/-- Every assignment operator, the longest first. -/
def all : List AssignOperator :=
  [unsignedShiftRight, exponent, shiftLeft, shiftRight, and, or, nullish,
   add, subtract, multiply, divide, remainder, bitAnd, bitOr, bitXor, plain]

end AssignOperator

/-- Why the text at some place is no token. -/
inductive LexError where
  | unterminatedComment
  | unterminatedString
  | unterminatedTemplate
  | unterminatedRegex
  | unterminatedEscape
  | hexEscape
  | unicodeEscape
  | escapeInIdentifier
  | missingRadixDigits
  | badExponent
  | identifierAfterNumber
  | badNumber (text : String)
  | unexpectedCharacter (c : Char)
  deriving DecidableEq, Repr

def LexError.message : LexError → String
  | unterminatedComment => "Unterminated comment"
  | unterminatedString => "Unterminated string literal"
  | unterminatedTemplate => "Unterminated template literal"
  | unterminatedRegex => "Unterminated regular expression"
  | unterminatedEscape => "Unterminated escape sequence"
  | hexEscape => "Invalid hexadecimal escape sequence"
  | unicodeEscape => "Invalid Unicode escape sequence"
  | escapeInIdentifier => "Unicode escapes in identifiers are not supported"
  | missingRadixDigits => "Expected number in radix literal"
  | badExponent => "Invalid exponent in number literal"
  | identifierAfterNumber => "Identifier directly after number"
  | badNumber text => "Invalid number literal '" ++ text ++ "'"
  | unexpectedCharacter c => "Unexpected character '" ++ String.singleton c ++ "'"

/-- What a token is, with its value. -/
inductive TokenKind where
  | keyword (word : Keyword)
  | reserved (word : String)
  | punct (mark : Punctuator)
  | assign (operator : AssignOperator)
  | identifier (name : String)
  | number (value : Number)
  /-- The digits, without separators, radix mark or suffix. -/
  | bigint (digits : String)
  | string (value : String)
  | regex (pattern flags : String)
  /-- A template literal without substitutions. -/
  | template (cooked : String)
  /-- From the opening backtick to the first substitution. -/
  | templateHead (cooked : String)
  /-- Between two substitutions. -/
  | templateMiddle (cooked : String)
  /-- From the last substitution to the closing backtick. -/
  | templateTail (cooked : String)
  | invalid (error : LexError)
  | eof
  deriving DecidableEq, Repr

namespace TokenKind

/-- The spelling of a keyword or reserved word; such a word may still name a
property. -/
def keywordText? : TokenKind → Option String
  | keyword word => some word.spelling
  | reserved word => some word
  | _ => none

/-- The source text of a token whose kind leaves no choice. -/
def spelling? : TokenKind → Option String
  | keyword word => some word.spelling
  | reserved word => some word
  | punct mark => some mark.spelling
  | assign operator => some operator.spelling
  | identifier name => some name
  | regex pattern flags => some ("/" ++ pattern ++ "/" ++ flags)
  | _ => none

/-- How messages name a token. -/
def display : TokenKind → String
  | keyword word => word.spelling
  | reserved word => "keyword '" ++ word ++ "'"
  | punct mark => mark.spelling
  | assign operator => operator.spelling
  | identifier name => "identifier(" ++ name ++ ")"
  | number value => "number(" ++ value.text ++ ")"
  | bigint digits => "bigint(" ++ digits ++ "n)"
  | string value => "string(\"" ++ value ++ "\")"
  | regex pattern flags => "regexp(/" ++ pattern ++ "/" ++ flags ++ ")"
  | template _ => "template"
  | templateHead _ => "template head"
  | templateMiddle _ => "'\x7d' in template"
  | templateTail _ => "template tail"
  | invalid error => "invalid token (" ++ error.message ++ ")"
  | eof => "end of input"

/-- Whether no token follows one of this kind. -/
def isTerminal : TokenKind → Bool
  | invalid _ => true
  | eof => true
  | _ => false

/-- The kind of a word: a keyword, a reserved word or a name. -/
def ofWord (word : String) : TokenKind :=
  match Keyword.all.find? (·.spelling == word) with
  | some k => keyword k
  | none => if reservedWords.contains word then reserved word else identifier word

end TokenKind

/-- Whether a word is kept from use as a name. -/
def isKeyword (word : String) : Bool :=
  (TokenKind.ofWord word).keywordText?.isSome

/-- A place in a text: characters before it, and its line and column counted
from one. -/
structure Position where
  offset : Nat := 0
  line : Nat := 1
  column : Nat := 1
  deriving DecidableEq, Repr

/-- A token with the characters it covers, from `start` up to the offset
`stop`. -/
structure Token where
  kind : TokenKind
  start : Position
  stop : Nat
  /-- A line terminator stands between this token and the one before it. -/
  newlineBefore : Bool
  deriving DecidableEq, Repr

end TemplateVars
