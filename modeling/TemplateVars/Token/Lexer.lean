/-
From text to tokens.

`Lexer.pass` reads tokens until the end of the text or a failure, and says where
it stopped; another pass goes on from there.

* `skip_rest`, `skip_offset` — what moving over characters does.

Design notes: whether `/` divides or opens a regular expression is decided by
the token before it.  A `}` closes a block or goes on with a template literal;
a stack with one entry per open brace tells which.  A token's place is computed
by moving over exactly the characters that its reader says it used.
-/
import TemplateVars.Token.Gap
import TemplateVars.Token.Numeral
import TemplateVars.Token.Quoted

namespace TemplateVars

open Text

/-- What an open brace belongs to. -/
inductive Brace where
  | block
  | substitution
  deriving DecidableEq, Repr

/-- A place in a text, the characters from there on, and what reading the tokens
before it has left behind. -/
structure Lexer where
  rest : List Char
  position : Position := {}
  regexAllowed : Bool := true
  /-- The open braces, innermost first. -/
  braces : List Brace := []
  deriving DecidableEq, Repr

/-- Whether a `/` after a token of this kind opens a regular expression. -/
def TokenKind.allowsRegexAfter : TokenKind → Bool
  | identifier _ => false
  | number _ => false
  | bigint _ => false
  | string _ => false
  | template _ => false
  | templateTail _ => false
  | regex _ _ => false
  | keyword .truth => false
  | keyword .falsity => false
  | keyword .null => false
  | keyword .this => false
  | keyword .super => false
  | punct .rightParen => false
  | punct .rightBracket => false
  | punct .rightBrace => false
  | punct .plusPlus => false
  | punct .minusMinus => false
  | _ => true

/-- Whether a property name follows a token of this kind. -/
def TokenKind.isAccess (kind : TokenKind) : Bool :=
  kind = .punct .dot || kind = .punct .questionDot

/-- The open braces after a token of this kind. -/
def TokenKind.bracesAfter : TokenKind → List Brace → List Brace
  | punct .leftBrace, braces => .block :: braces
  | punct .rightBrace, braces => braces.tail
  | templateHead _, braces => .substitution :: braces
  | templateTail _, braces => braces.tail
  | _, braces => braces

/-- The place after a character, given the characters behind it. -/
def Position.next (p : Position) (c : Char) (after : List Char) : Position :=
  if c = '\r' ∧ after.head? = some '\n' then { p with offset := p.offset + 1 }
  else if isLineTerminator c then ⟨p.offset + 1, p.line + 1, 1⟩
  else ⟨p.offset + 1, p.line, p.column + 1⟩

namespace Lexer

/-- A lexer at the start of a text. -/
def ofText (s : List Char) : Lexer := { rest := s }

/-- Moves over `n` characters. -/
def skip : Nat → Lexer → Lexer
  | 0, l => l
  | n + 1, l =>
    match l.rest with
    | [] => l
    | c :: after => skip n { l with rest := after, position := l.position.next c after }

@[simp] theorem skip_rest (n : Nat) (l : Lexer) : (l.skip n).rest = l.rest.drop n := by
  induction n generalizing l with
  | zero => simp [skip]
  | succ n ih =>
    unfold skip
    cases h : l.rest with
    | nil => simp [h]
    | cons c after => simp [ih]

theorem skip_offset (n : Nat) (l : Lexer) :
    (l.skip n).position.offset = l.position.offset + min n l.rest.length := by
  induction n generalizing l with
  | zero => simp [skip]
  | succ n ih =>
    unfold skip
    cases h : l.rest with
    | nil => simp
    | cons c after =>
      simp only [ih, List.length_cons]
      unfold Position.next
      split
      · simp only; omega
      · split <;> simp only <;> omega

/-- The punctuators and assignment operators with their spellings, the longest
first. -/
def marks : List (List Char × TokenKind) :=
  let kinds := AssignOperator.all.map TokenKind.assign ++ Punctuator.all.map TokenKind.punct
  let spelled := kinds.filterMap fun k => k.spelling?.map fun text => (text.toList, k)
  [4, 3, 2, 1].flatMap fun n => spelled.filter (·.1.length == n)

/-- The longest mark at the front of a text.  No `?.` stands before a digit:
there, a conditional goes on with a fraction. -/
def mark? (s : List Char) : Option (List Char × TokenKind) :=
  marks.find? fun (text, kind) =>
    text.isPrefixOf s &&
      !(kind == .punct .questionDot && Numeral.startsWithDigit 10 (s.drop 2))

/-- A piece of a template literal as a token. -/
def pieceToken (opening : Bool) : List Char × Quoted.PieceEnd → TokenKind
  | (text, .closed) =>
    if opening then .template (String.ofList text) else .templateTail (String.ofList text)
  | (text, .substitution) =>
    if opening then .templateHead (String.ofList text) else .templateMiddle (String.ofList text)

/-- A word from the character after its first one. -/
def scanWord (first : Char) (s : List Char) : Scan TokenKind :=
  let others := s.takeWhile isIdentifierPart
  if (s.drop others.length).head? = some '\\' then .error .escapeInIdentifier others.length
  else .ok (.ofWord (String.ofList (first :: others))) others.length

/-- A punctuator or assignment operator from the character after its first
one. -/
def scanMark (first : Char) (s : List Char) : Scan TokenKind :=
  match mark? (first :: s) with
  | some (text, kind) => .ok kind (text.length - 1)
  | none =>
    if first = '\\' then .error .escapeInIdentifier 0
    else .error (.unexpectedCharacter first) 0

/-- The token with a given first character, from the character after that. -/
def scanToken (regexAllowed : Bool) (braces : List Brace) (first : Char) (s : List Char) :
    Scan TokenKind :=
  if first = '}' ∧ braces.head? = some .substitution then
    (Quoted.scanPiece s).map (pieceToken false)
  else if first = '\x22' ∨ first = '\x27' then
    (Quoted.scanString first s).map fun text => .string (String.ofList text)
  else if first = Quoted.backtick then (Quoted.scanPiece s).map (pieceToken true)
  else if first.isDigit ∨ (first = '.' ∧ Numeral.startsWithDigit 10 s) then
    Numeral.scan first s
  else if first = '/' ∧ regexAllowed then Quoted.scanRegex s
  else if isIdentifierStart first then scanWord first s
  else scanMark first s

/-- The state after a token; a keyword that names a property divides. -/
def after (l : Lexer) (kind : TokenKind) (afterAccess : Bool) : Lexer :=
  { l with
    regexAllowed := !(afterAccess && kind.keywordText?.isSome) && kind.allowsRegexAfter
    braces := kind.bracesAfter l.braces }

/-- The state after a failure at a character; a `}` that should have gone on with
a template literal has closed its substitution. -/
def afterFailure (l : Lexer) (first : Char) : Lexer :=
  { l with braces := if first = '}' then l.braces.tail else l.braces }

/-- Reads tokens up to the end of the text or the first failure. -/
def tokensFrom (l : Lexer) (afterAccess : Bool) : List Token × Lexer :=
  match Gap.scan l.rest with
  | .unterminated start used =>
    let stopped := l.skip used
    let token : Token :=
      { kind := .invalid .unterminatedComment, start := (l.skip start).position,
        stop := stopped.position.offset, newlineBefore := false }
    ([token], stopped)
  | .passed newline used =>
    let here := l.skip used
    match _h : here.rest with
    | [] =>
      let token : Token :=
        { kind := .eof, start := here.position, stop := here.position.offset,
          newlineBefore := newline }
      ([token], here)
    | first :: rest =>
      match scanToken here.regexAllowed here.braces first rest with
      | .error cause n =>
        let stopped := (here.skip (n + 1)).afterFailure first
        let token : Token :=
          { kind := .invalid cause, start := here.position, stop := stopped.position.offset,
            newlineBefore := false }
        ([token], stopped)
      | .ok kind n =>
        let next := (here.skip (n + 1)).after kind afterAccess
        let token : Token :=
          { kind := kind, start := here.position, stop := next.position.offset,
            newlineBefore := newline }
        let (tokens, final) := tokensFrom next kind.isAccess
        (token :: tokens, final)
termination_by l.rest.length
decreasing_by
  have hlen : here.rest.length ≤ l.rest.length := by
    simp only [here, skip_rest, List.length_drop]; omega
  have hnext : next.rest = here.rest.drop (n + 1) := by
    simp only [next, after, skip_rest]
  rw [hnext, List.length_drop]
  have : 0 < here.rest.length := by rw [_h]; simp
  omega

/-- One pass: the tokens from here to the end of the text or the first failure,
and the state there. -/
def pass (l : Lexer) : List Token × Lexer :=
  l.tokensFrom false

end Lexer

/-- The tokens of a text, the last one `eof` or `invalid`. -/
def tokenize (source : String) : List Token :=
  (Lexer.ofText source.toList).pass.1

end TemplateVars
