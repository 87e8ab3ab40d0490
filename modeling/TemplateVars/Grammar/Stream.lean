/-
Reading from a list of tokens.

A reader of type `Parse α` takes tokens from the front of a stream and either
returns a value or fails; in both cases it leaves the stream where it stopped.

Design notes: the last token of a list is terminal and is never taken.  The
depth counts the levels that are open and is bounded by `maxDepth`, so that
hostile nesting is an error and nothing worse.  Repetition is by `collect` and
`chain`, which go on only after a round that took a token.
-/
import TemplateVars.Grammar.Error

namespace TemplateVars

/-- How many levels an expression may nest.  The expression is the first one;
groups, array and object literals, arguments, branches, arrow bodies,
substitutions, unary operators and exponents open another, chains do not. -/
def maxDepth : Nat := 128

/-- The tokens ahead, and how many levels are open. -/
structure Stream where
  rest : List Token
  depth : Nat := 0
  deriving DecidableEq, Repr

namespace Stream

/-- The token read from an empty list. -/
def endToken : Token := { kind := .eof, start := {}, stop := 0, newlineBefore := false }

/-- The token `n` places ahead; from the last one on, the last one. -/
def ahead (s : Stream) (n : Nat) : Token :=
  match s.rest[n]? with
  | some token => token
  | none => s.rest.getLastD endToken

/-- The current token. -/
def current (s : Stream) : Token := s.rest.headD endToken

/-- The stream after its current token, which is kept if it is terminal. -/
def advance (s : Stream) : Stream :=
  if s.current.kind.isTerminal then s else { s with rest := s.rest.tail }

/-- The error that something is wrong with the current token. -/
def errorHere (s : Stream) (cause : SyntaxError) : ParseError :=
  { line := s.current.start.line
    column := s.current.start.column
    cause := match s.current.kind with
      | .invalid error => .lexical error
      | _ => cause }

end Stream

/-- A reader of tokens. -/
abbrev Parse (α : Type) := EStateM ParseError Stream α

namespace Parse

variable {α β : Type}

/-- Fails at the current token. -/
def fail (cause : SyntaxError) : Parse α := fun s => .error (s.errorHere cause) s

/-- The kind of the current token. -/
def kind : Parse TokenKind := fun s => .ok s.current.kind s

/-- The token `n` places ahead. -/
def ahead (n : Nat) : Parse Token := fun s => .ok (s.ahead n) s

/-- Takes the current token. -/
def advance : Parse Unit := fun s => .ok () s.advance

/-- Whether the current token is a mark. -/
def check (mark : Punctuator) : Parse Bool := fun s =>
  .ok (s.current.kind = .punct mark) s

/-- Takes the current token if it is a mark, and says whether it was. -/
def accept (mark : Punctuator) : Parse Bool := fun s =>
  if s.current.kind = .punct mark then .ok true s.advance else .ok false s

/-- Takes a mark that has to be there. -/
def expect (wanted : Expected) : Parse Unit := fun s =>
  if s.current.kind = .punct wanted.mark then .ok () s.advance
  else .error (s.errorHere (.expected wanted s.current.kind)) s

/-- Reads one level deeper. -/
def nested (p : Parse α) : Parse α := fun s =>
  if maxDepth ≤ s.depth then .error (s.errorHere .tooDeep) s
  else match p { s with depth := s.depth + 1 } with
    | .ok a t => .ok a { t with depth := t.depth - 1 }
    | .error e t => .error e { t with depth := t.depth - 1 }

/-- One round of reading a list. -/
inductive Item (α : Type) where
  | stop
  | last (value : α)
  | more (value : α)

/-- Reads a list, round by round. -/
def collect (round : Parse (Item α)) : Parse (List α) := fun s =>
  match round s with
  | .error e t => .error e t
  | .ok .stop t => .ok [] t
  | .ok (.last a) t => .ok [a] t
  | .ok (.more a) t =>
    if t.rest.length < s.rest.length then
      match collect round t with
      | .ok as u => .ok (a :: as) u
      | .error e u => .error e u
    else .error (t.errorHere .outOfSteps) t
termination_by s => s.rest.length

/-- Extends a value as often as a link follows. -/
def chain (link : α → Parse (Option α)) (a : α) : Parse α := fun s =>
  match link a s with
  | .error e t => .error e t
  | .ok none t => .ok a t
  | .ok (some b) t =>
    if t.rest.length < s.rest.length then chain link b t
    else .error (t.errorHere .outOfSteps) t
termination_by s => s.rest.length

end Parse

end TemplateVars
