/-
Number literals.

A literal is a run of digits after `0x`, `0o` or `0b`, or a decimal number with
an optional fraction and exponent.  An underscore may separate two digits.  The
suffix `n` makes a whole number a big integer.

Design notes: a literal must not run into a name or another digit.  Digits of a
radix are accumulated with a rounding after each one, decimals are rounded once.
-/
import TemplateVars.Token.Scan
import TemplateVars.Number.Decimal

namespace TemplateVars.Numeral

open Text

/-- Whether a text starts with a digit of a radix. -/
def startsWithDigit (radix : Nat) : List Char → Bool
  | c :: _ => isDigitOf radix c
  | [] => false

/-- The digits at the front of a text, without the separators between them, and
the number of characters used. -/
def digitRun (radix : Nat) : List Char → List Char × Nat
  | [] => ([], 0)
  | c :: rest =>
    if isDigitOf radix c then
      let (ds, n) := digitRun radix rest
      (c :: ds, n + 1)
    else if c = '_' ∧ startsWithDigit radix rest then
      let (ds, n) := digitRun radix rest
      (ds, n + 1)
    else ([], 0)

/-- Fails when a name or a digit follows a literal that used `n` characters. -/
def closed (n : Nat) (after : List Char) (literal : Scan TokenKind) : Scan TokenKind :=
  match after with
  | c :: _ => if isIdentifierStart c ∨ c.isDigit then .error .identifierAfterNumber n else literal
  | [] => literal

/-- A literal of a radix, from the character after its radix mark. -/
def scanRadix (radix : Nat) (s : List Char) : Scan TokenKind :=
  let (ds, n) := digitRun radix s
  if ds = [] then .error .missingRadixDigits n
  else match s.drop n with
    | 'n' :: after => closed (n + 1) after (.ok (.bigint (String.ofList ds)) (n + 1))
    | after =>
      let values := ds.map fun d => (digitValue? radix d).getD 0
      closed n after (.ok (.number (Number.ofDigits radix values)) n)

/-- The exponent after its `e`, if a digit follows there, perhaps after a sign. -/
def exponent? : List Char → Option (List Char × Nat)
  | [] => none
  | c :: rest =>
    if c = '+' ∨ c = '-' then
      if startsWithDigit 10 rest then
        let (ds, n) := digitRun 10 rest
        some (c :: ds, n + 1)
      else none
    else if c.isDigit then some (digitRun 10 (c :: rest))
    else none

/-- A decimal literal so far: its text without separators, whether it has
neither point nor exponent, and the number of characters used. -/
structure Reading where
  text : List Char
  whole : Bool
  used : Nat

/-- Digits, a point and digits, after a first character that is a digit or the
point. -/
def mantissa (first : Char) (s : List Char) : Reading :=
  let (ds, n) := digitRun 10 s
  if first = '.' then ⟨'0' :: '.' :: ds, false, n⟩
  else match s.drop n with
    | '.' :: after =>
      let (fs, m) := digitRun 10 after
      ⟨first :: ds ++ '.' :: fs, false, n + 1 + m⟩
    | _ => ⟨first :: ds, true, n⟩

/-- A mantissa with the exponent that may follow it. -/
def withExponent (m : Reading) (after : List Char) : Scan Reading :=
  match after with
  | c :: rest =>
    if c = 'e' ∨ c = 'E' then
      match exponent? rest with
      | some (text, n) => .ok ⟨m.text ++ c :: text, false, m.used + 1 + n⟩ (m.used + 1 + n)
      | none => .error .badExponent m.used
    else .ok m m.used
  | [] => .ok m m.used

/-- A decimal literal, from the character after its first one. -/
def scanDecimal (first : Char) (s : List Char) : Scan TokenKind :=
  let m := mantissa first s
  (withExponent m (s.drop m.used)).andThen fun p _ =>
    let number : Scan TokenKind :=
      match Number.ofDecimalText? p.text with
      | some value => .ok (.number value) p.used
      | none => .error (.badNumber (String.ofList p.text)) p.used
    match p.whole, s.drop p.used with
    | true, 'n' :: after =>
      closed (p.used + 1) after (.ok (.bigint (String.ofList p.text)) (p.used + 1))
    | _, after => closed p.used after number

/-- The radix that a mark after a leading zero announces. -/
def radixOfMark? : Char → Option Nat
  | 'x' => some 16
  | 'X' => some 16
  | 'o' => some 8
  | 'O' => some 8
  | 'b' => some 2
  | 'B' => some 2
  | _ => none

/-- A number literal, from the character after its first one. -/
def scan (first : Char) (s : List Char) : Scan TokenKind :=
  match first, s with
  | '0', mark :: rest =>
    match radixOfMark? mark with
    | some radix => (scanRadix radix rest).shift 1
    | none => scanDecimal first s
  | _, _ => scanDecimal first s

end TemplateVars.Numeral
