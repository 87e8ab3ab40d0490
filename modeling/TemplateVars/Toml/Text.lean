/-
The text of TOML documents below the level of values: blanks, comments, line
ends, strings and keys.

Design notes: a string is read piece by piece, and each kind of string says what
a piece of it is.  A string in three marks drops a line break right after its
opening marks, writes every line break as LF, and may end in one or two marks of
its own before the closing ones.
-/
import TemplateVars.Text.Classes

namespace TemplateVars.Toml

open Text

/-- Space within a line. -/
def isSpace (c : Char) : Bool := c == ' ' || c == '\t'

def skipSpace (s : List Char) : List Char := s.dropWhile isSpace

/-- A character of a line: a tab, or anything but control characters. -/
def isLineChar (c : Char) : Bool := c == '\t' || (' ' ≤ c && c != '\x7f')

/-- The text after a line break that starts here. -/
def newline? : List Char → Option (List Char)
  | '\n' :: rest => some rest
  | '\r' :: '\n' :: rest => some rest
  | _ => none

/-- The text after all space, line breaks and comments that start here;
`inComment` says that a comment has begun. -/
def skipLines : (inComment : Bool) → List Char → List Char
  | _, [] => []
  | _, '\n' :: rest => skipLines false rest
  | _, '\r' :: '\n' :: rest => skipLines false rest
  | true, c :: rest => if isLineChar c then skipLines true rest else c :: rest
  | false, c :: rest =>
    if isSpace c then skipLines false rest
    else if c = '#' then skipLines true rest
    else c :: rest

/-- The text after the end of a line, which may hold space and a comment. -/
def lineEnd? (s : List Char) : Option (List Char) :=
  let rest := match skipSpace s with
    | '#' :: rest => rest.dropWhile isLineChar
    | rest => rest
  if rest = [] then some [] else newline? rest

/-- What a text may start with inside a string: some characters of it, or its
end after some characters, with the number of characters they are written
with. -/
inductive Piece where
  | chars (cs : List Char) (used : Nat)
  | closing (cs : List Char) (used : Nat)

/-- The character of a short escape. -/
def shortEscape? : Char → Option Char
  | 'b' => some '\x08'
  | 't' => some '\t'
  | 'n' => some '\n'
  | 'f' => some '\x0c'
  | 'r' => some '\r'
  | '\x22' => some '\x22'
  | '\\' => some '\\'
  | _ => none

/-- The character that so many hexadecimal digits name. -/
def scalar? (count : Nat) (s : List Char) : Option Char :=
  let ds := s.take count
  let code := natOfDigits 16 ds
  if ds.length = count ∧ ds.all (isDigitOf 16) ∧ code.isValidChar then some (Char.ofNat code)
  else none

/-- An escape, from the character after its backslash. -/
def escape? : List Char → Option Piece
  | 'u' :: rest => (scalar? 4 rest).map fun c => .chars [c] 6
  | 'U' :: rest => (scalar? 8 rest).map fun c => .chars [c] 10
  | c :: _ => (shortEscape? c).map fun c => .chars [c] 2
  | [] => none

/-- A character that stands for itself. -/
def plain? : List Char → Option Piece
  | c :: _ => if isLineChar c then some (.chars [c] 1) else none
  | [] => none

/-- A piece of a string in double marks. -/
def basicPiece? : List Char → Option Piece
  | '\x22' :: _ => some (.closing [] 1)
  | '\\' :: rest => escape? rest
  | s => plain? s

/-- A piece of a string in single marks, which knows no escapes. -/
def literalPiece? : List Char → Option Piece
  | '\'' :: _ => some (.closing [] 1)
  | s => plain? s

/-- A run of marks inside a string in three marks: three of them close it, up to
two before these belong to it. -/
def marks (mark : Char) (s : List Char) : Piece :=
  let n := min (s.takeWhile (· == mark)).length 5
  if n < 3 then .chars (List.replicate n mark) n else .closing (List.replicate (n - 3) mark) n

/-- A line break inside a string in three marks. -/
def breakPiece? : List Char → Option Piece
  | '\n' :: _ => some (.chars ['\n'] 1)
  | '\r' :: '\n' :: _ => some (.chars ['\n'] 2)
  | _ => none

/-- The text after all space and line breaks that start here. -/
def skipFiller : List Char → List Char
  | [] => []
  | '\r' :: '\n' :: rest => skipFiller rest
  | c :: rest => if isSpace c || c == '\n' then skipFiller rest else c :: rest

/-- The end of a line whose break is escaped, with the blank lines and space that
follow, from the character after the backslash. -/
def continuation? (s : List Char) : Option Piece :=
  (newline? (skipSpace s)).map fun rest =>
    .chars [] (s.length - (skipFiller rest).length + 1)

/-- A piece of a string in three double marks. -/
def basicBlockPiece? : List Char → Option Piece
  | '\x22' :: rest => some (marks '\x22' ('\x22' :: rest))
  | '\\' :: rest => (continuation? rest).or (escape? rest)
  | s => (breakPiece? s).or (plain? s)

/-- A piece of a string in three single marks. -/
def literalBlockPiece? : List Char → Option Piece
  | '\'' :: rest => some (marks '\'' ('\'' :: rest))
  | s => (breakPiece? s).or (plain? s)

/-- A string of some kind, from the character after its opening. -/
def pieces? (piece? : List Char → Option Piece) (s : List Char) :
    Option (List Char × List Char) :=
  match piece? s with
  | none => none
  | some (.closing cs used) => some (cs, s.drop used)
  | some (.chars cs used) =>
    if _ : 0 < used ∧ used ≤ s.length then
      (pieces? piece? (s.drop used)).map fun (more, rest) => (cs ++ more, rest)
    else none
termination_by s.length
decreasing_by
  simp only [List.length_drop]
  omega

/-- A text without the line break it may start with. -/
def afterBreak (s : List Char) : List Char := (newline? s).getD s

/-- A string in one mark on each side, and what follows it. -/
def lineString? : List Char → Option (List Char × List Char)
  | '\x22' :: rest => pieces? basicPiece? rest
  | '\'' :: rest => pieces? literalPiece? rest
  | _ => none

/-- A string of any kind and what follows it. -/
def string? : List Char → Option (List Char × List Char)
  | '\x22' :: '\x22' :: '\x22' :: rest => pieces? basicBlockPiece? (afterBreak rest)
  | '\'' :: '\'' :: '\'' :: rest => pieces? literalBlockPiece? (afterBreak rest)
  | s => lineString? s

/-- A character of a key without marks. -/
def isKeyChar (c : Char) : Bool := isDigitOf 36 c || c == '_' || c == '-'

/-- One part of a key, and what follows it. -/
def keyPart? (s : List Char) : Option (List Char × List Char) :=
  match s.takeWhile isKeyChar with
  | [] => lineString? s
  | cs => some (cs, s.drop cs.length)

/-- One more than the number of parts that a key may have. -/
def maxParts : Nat := 80

/-- At most `n` parts of a key, with space around each. -/
def keyParts? : Nat → List Char → Option (List String × List Char)
  | 0, _ => none
  | n + 1, s =>
    match keyPart? (skipSpace s) with
    | none => none
    | some (part, rest) =>
      match skipSpace rest with
      | '.' :: rest =>
        (keyParts? n rest).map fun (parts, rest) => (String.ofList part :: parts, rest)
      | rest => some ([String.ofList part], rest)

/-- A key, perhaps dotted, and what follows it and the space behind it. -/
def key? (s : List Char) : Option (List String × List Char) := keyParts? (maxParts - 1) s

end TemplateVars.Toml
