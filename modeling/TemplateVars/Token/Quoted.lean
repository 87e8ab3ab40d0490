/-
Escape sequences, and the texts in which they occur: string literals and the
pieces of template literals.

Design notes: an escape denotes one character, or none when it continues a line.
`\u{…}` holds hexadecimal digits for a code below 2^32, which a plus sign may
precede; a code that is no Unicode scalar value denotes U+FFFD.  A line
terminator ends a string unless it is escaped, and belongs to a template's text.
-/
import TemplateVars.Token.Scan
import TemplateVars.Text.Classes

namespace TemplateVars.Quoted

open Text

/-- The character of a code, or U+FFFD if there is none. -/
def scalar (code : Nat) : Char :=
  if code.isValidChar then Char.ofNat code else '\ufffd'

/-- A fixed number of hexadecimal digits, put behind the code read so far. -/
def hexDigits : Nat → Nat → List Char → Scan Nat
  | 0, code, _ => .ok code 0
  | _ + 1, _, [] => .error .hexEscape 0
  | count + 1, code, c :: rest =>
    match digitValue? 16 c with
    | some d => (hexDigits count (code * 16 + d) rest).shift 1
    | none => .error .hexEscape 0

/-- The code between the braces of an escape. -/
def bracedCode? (s : List Char) : Option Nat :=
  let ds := if s.head? = some '+' then s.tail else s
  let code := natOfDigits 16 ds
  if ds ≠ [] ∧ ds.all (isDigitOf 16) ∧ code < Nat.pow 2 32 then some code else none

/-- The code of an escape from the character after its opening brace. -/
def scanBraced (s : List Char) : Scan Nat :=
  let inside := s.takeWhile (· != '}')
  if inside.length = s.length then .error .unicodeEscape s.length
  else match bracedCode? inside with
    | some code => .ok code (inside.length + 1)
    | none => .error .unicodeEscape (inside.length + 1)

/-- What an escape denotes, from the character after its backslash. -/
def scanEscape : List Char → Scan (List Char)
  | [] => .error .unterminatedEscape 0
  | 'n' :: _ => .ok ['\n'] 1
  | 't' :: _ => .ok ['\t'] 1
  | 'r' :: _ => .ok ['\r'] 1
  | 'b' :: _ => .ok ['\x08'] 1
  | 'f' :: _ => .ok ['\x0c'] 1
  | 'v' :: _ => .ok ['\x0b'] 1
  | '0' :: rest =>
    if (rest.head?.map Char.isDigit).getD false then .ok ['0'] 1 else .ok ['\x00'] 1
  | 'x' :: rest => ((hexDigits 2 0 rest).map fun code => [scalar code]).shift 1
  | 'u' :: '{' :: rest => ((scanBraced rest).map fun code => [scalar code]).shift 2
  | 'u' :: rest => ((hexDigits 4 0 rest).map fun code => [scalar code]).shift 1
  | '\r' :: '\n' :: _ => .ok [] 2
  | c :: _ => if isLineTerminator c then .ok [] 1 else .ok [c] 1

/-- An outcome with characters read before it. -/
def before (cs : List Char) (n : Nat) (s : Scan (List Char)) : Scan (List Char) :=
  (s.map (cs ++ ·)).shift n

/-- The value of a string literal, from the character after its opening
quote. -/
def scanString (quote : Char) : List Char → Scan (List Char)
  | [] => .error .unterminatedString 0
  | c :: rest =>
    if c = quote then .ok [] 1
    else if c = '\\' then
      match scanEscape rest with
      | .ok cs n => before cs (1 + n) (scanString quote (rest.drop n))
      | .error cause n => .error cause (1 + n)
    else if c = '\n' ∨ c = '\r' then .error .unterminatedString 0
    else before [c] 1 (scanString quote rest)
termination_by s => s.length
decreasing_by
  all_goals simp only [List.length_cons, List.length_drop]
  all_goals omega

/-- The mark that opens and closes a template literal. -/
def backtick : Char := '\x60'

/-- How a piece of a template literal ends. -/
inductive PieceEnd where
  | closed
  | substitution
  deriving DecidableEq, Repr

/-- The text of a piece of a template literal and how it ends. -/
def scanPiece : List Char → Scan (List Char × PieceEnd)
  | [] => .error .unterminatedTemplate 0
  | c :: rest =>
    if c = backtick then .ok ([], .closed) 1
    else if c = '\\' then
      match scanEscape rest with
      | .ok cs n => ((scanPiece (rest.drop n)).map fun (text, e) => (cs ++ text, e)).shift (1 + n)
      | .error cause n => .error cause (1 + n)
    else if c = '$' ∧ rest.head? = some '{' then .ok ([], .substitution) 2
    else ((scanPiece rest).map fun (text, e) => (c :: text, e)).shift 1
termination_by s => s.length
decreasing_by
  all_goals simp only [List.length_cons, List.length_drop]
  all_goals omega

/-- The pattern of a regular expression, from the character after its opening
slash; within a character class a slash does not close it. -/
def scanPattern (inClass : Bool) : List Char → Scan (List Char)
  | [] => .error .unterminatedRegex 0
  | c :: rest =>
    if isLineTerminator c then .error .unterminatedRegex 0
    else if c = '\\' then
      match rest with
      | [] => .error .unterminatedRegex 1
      | d :: rest =>
        if isLineTerminator d then .error .unterminatedRegex 1
        else before [c, d] 2 (scanPattern inClass rest)
    else if c = '/' ∧ !inClass then .ok [] 1
    else
      let inClass := if c = '[' then true else if c = ']' then false else inClass
      before [c] 1 (scanPattern inClass rest)

/-- A regular expression with its flags, from the character after its opening
slash. -/
def scanRegex (s : List Char) : Scan TokenKind :=
  (scanPattern false s).andThen fun pattern n =>
    let flags := (s.drop n).takeWhile isIdentifierPart
    .ok (.regex (String.ofList pattern) (String.ofList flags)) (n + flags.length)

end TemplateVars.Quoted
