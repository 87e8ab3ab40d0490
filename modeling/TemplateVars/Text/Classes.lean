/-
The character classes of expression text: line terminators, blanks, and the
characters of identifiers.

Design notes: identifiers follow two Unicode properties, Alphabetic for a first
character and general category N besides for later ones, and not the ID_Start
and ID_Continue properties.  A blank may also be U+FEFF, which has no White_Space
property; trimming (`Text.trim`) knows White_Space alone.
-/
import TemplateVars.Text.Alphabetic
import TemplateVars.Text.Numeric
import TemplateVars.Text.WhiteSpace

namespace TemplateVars.Text

/-- LF, CR, LINE SEPARATOR and PARAGRAPH SEPARATOR. -/
def isLineTerminator (c : Char) : Bool :=
  c == '\n' || c == '\r' || c == '\u2028' || c == '\u2029'

/-- A character that only separates tokens. -/
def isBlank (c : Char) : Bool :=
  isWhiteSpace c || c == '\ufeff'

/-- A character that an identifier may start with. -/
def isIdentifierStart (c : Char) : Bool :=
  c == '$' || c == '_' || isAlphabetic c

/-- A character that an identifier may go on with; the two joiners are U+200C
and U+200D. -/
def isIdentifierPart (c : Char) : Bool :=
  isIdentifierStart c || isNumeric c || c == '\u200c' || c == '\u200d'

/-- The value of an ASCII digit or letter as a digit of the given radix. -/
def digitValue? (radix : Nat) (c : Char) : Option Nat :=
  let value? :=
    if '0' ≤ c ∧ c ≤ '9' then some (c.toNat - '0'.toNat)
    else if 'a' ≤ c ∧ c ≤ 'z' then some (c.toNat - 'a'.toNat + 10)
    else if 'A' ≤ c ∧ c ≤ 'Z' then some (c.toNat - 'A'.toNat + 10)
    else none
  value?.filter (· < radix)

/-- Whether a character is a digit of the given radix. -/
def isDigitOf (radix : Nat) (c : Char) : Bool :=
  (digitValue? radix c).isSome

/-- The number that digits of the given radix spell, other characters counting
as zero. -/
def natOfDigits (radix : Nat) (ds : List Char) : Nat :=
  ds.foldl (fun n d => n * radix + (digitValue? radix d).getD 0) 0

theorem isIdentifierPart_of_start {c : Char} (h : isIdentifierStart c = true) :
    isIdentifierPart c = true := by
  simp [isIdentifierPart, h]

end TemplateVars.Text
