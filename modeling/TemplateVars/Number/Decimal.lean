/-
Reading decimal numbers.

A decimal number is one or more digits, perhaps a point and more digits, and
perhaps `e` or `E`, a sign and an exponent.  It stands for the floating-point
number nearest to its exact value.

Design notes: an exponent may be as large as the text is long, so a value that
lies beyond all rounding — above 10^310, below 10^-330 — is settled from the
number of digits, before any power of ten is computed.
-/
import TemplateVars.Number.Basic
import TemplateVars.Text.Classes

namespace TemplateVars

open Text

/-- The number nearest to `digits · 10^exponent`. -/
def Number.ofDecimal (digits : Nat) (exponent : Int) : Number :=
  let magnitude : Int := (Nat.toDigits 10 digits).length + exponent
  if digits = 0 then zero
  else if magnitude > 310 then infinite
  else if magnitude < -330 then zero
  else ofRatio (digits * power 10 exponent) (power 10 (-exponent))

/-- The parts of a decimal number. -/
structure Decimal where
  whole : List Char
  fraction : List Char := []
  exponent : Int := 0
  deriving DecidableEq, Repr

namespace Decimal

/-- The number a decimal stands for. -/
def value (d : Decimal) : Number :=
  Number.ofDecimal (natOfDigits 10 (d.whole ++ d.fraction)) (d.exponent - d.fraction.length)

/-- One or more digits, and nothing else. -/
def readDigits? (s : List Char) : Option Nat :=
  if s ≠ [] ∧ s.all Char.isDigit then some (natOfDigits 10 s) else none

/-- What follows the digits of a decimal: nothing, or an exponent. -/
def readExponent? : List Char → Option Int
  | [] => some 0
  | c :: s =>
    if c = 'e' ∨ c = 'E' then
      match s with
      | '+' :: ds => (readDigits? ds).map fun n => n
      | '-' :: ds => (readDigits? ds).map fun n => -n
      | ds => (readDigits? ds).map fun n => n
    else none

/-- The decimal that a whole text spells. -/
def read? (s : List Char) : Option Decimal :=
  let whole := s.takeWhile Char.isDigit
  if whole = [] then none
  else match s.dropWhile Char.isDigit with
    | '.' :: rest =>
      let fraction := rest.takeWhile Char.isDigit
      (readExponent? (rest.dropWhile Char.isDigit)).map fun e => ⟨whole, fraction, e⟩
    | rest => (readExponent? rest).map fun e => ⟨whole, [], e⟩

end Decimal

/-- The number that a decimal text stands for. -/
def Number.ofDecimalText? (s : List Char) : Option Number :=
  (Decimal.read? s).map Decimal.value

end TemplateVars
