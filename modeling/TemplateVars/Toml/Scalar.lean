/-
Numbers, truth values, dates and times in TOML documents.

* `Toml.isScalar` says whether a word is one of them.

Design notes: their values are of no use here, so they are only checked: whole
numbers for the range of 64 bits, decimals for being finite, dates for the
calendar.
-/
import TemplateVars.Number.Decimal

namespace TemplateVars.Toml

open Text

/-- The digits of a run in which an underscore may separate two digits. -/
def digits? (radix : Nat) : List Char → Option (List Char)
  | [] => none
  | [d] => if isDigitOf radix d then some [d] else none
  | d :: '_' :: rest => if isDigitOf radix d then (digits? radix rest).map (d :: ·) else none
  | d :: rest => if isDigitOf radix d then (digits? radix rest).map (d :: ·) else none

/-- Whether a number starts with a minus sign, and the number without its sign. -/
def splitSign : List Char → Bool × List Char
  | '-' :: rest => (true, rest)
  | '+' :: rest => (false, rest)
  | s => (false, s)

/-- The digits of a whole number; no zero leads another digit. -/
def whole? (s : List Char) : Option (List Char) :=
  (digits? 10 s).filter fun ds => ds.length = 1 || ds.head? != some '0'

/-- Whether a word is a whole number without a radix. -/
def isInteger (s : List Char) : Bool :=
  let (negative, s) := splitSign s
  match whole? s with
  | some ds => natOfDigits 10 ds < Nat.pow 2 63 + (if negative then 1 else 0)
  | none => false

/-- Whether digits of a radix spell a number below 2^63. -/
def isRadixInteger (radix : Nat) (s : List Char) : Bool :=
  match digits? radix s with
  | some ds => natOfDigits radix ds < Nat.pow 2 63
  | none => false

/-- The digits behind the exponent mark, with their sign. -/
def exponentDigits? (s : List Char) : Option (List Char) :=
  let (negative, rest) := splitSign s
  (digits? 10 rest).map fun ds => if negative then '-' :: ds else ds

def isExponentMark (c : Char) : Bool := c == 'e' || c == 'E'

/-- What follows the mantissa of a decimal number, without separators. -/
def exponentPart? : List Char → Option (List Char)
  | [] => some []
  | _ :: rest => (exponentDigits? rest).map ('e' :: ·)

/-- The text of a decimal number with a point or an exponent, without sign and
separators. -/
def decimalText? (s : List Char) : Option (List Char) := do
  let mantissa := s.takeWhile (!isExponentMark ·)
  let exponent ← exponentPart? (s.drop mantissa.length)
  let front := mantissa.takeWhile (· != '.')
  let ds ← whole? front
  match mantissa.drop front.length with
  | [] => if exponent = [] then none else some (ds ++ exponent)
  | _ :: fraction => (digits? 10 fraction).map fun fs => ds ++ '.' :: fs ++ exponent

/-- Whether a word is a decimal number that is not too large. -/
def isFloat (s : List Char) : Bool :=
  let (negative, s) := splitSign s
  match (decimalText? s).bind Number.ofDecimalText? with
  | some value => negative || value != .infinite
  | none => s = "inf".toList || s = "nan".toList

/-- The value of two digits, if it is in a range. -/
def two? (low high : Nat) (c d : Char) : Option Nat :=
  if c.isDigit ∧ d.isDigit then
    some (natOfDigits 10 [c, d]) |>.filter fun n => low ≤ n && n ≤ high
  else none

def isLeapYear (year : Nat) : Bool := year % 4 = 0 && (year % 100 != 0 || year % 400 = 0)

/-- The number of days in a month. -/
def daysIn (year month : Nat) : Nat :=
  if month = 2 then if isLeapYear year then 29 else 28
  else if [4, 6, 9, 11].contains month then 30
  else 31

/-- The text after a date. -/
def afterDate? : List Char → Option (List Char)
  | a :: b :: c :: d :: '-' :: e :: f :: '-' :: g :: h :: rest => do
    if [a, b, c, d].all Char.isDigit then
      let month ← two? 1 12 e f
      let _ ← two? 1 (daysIn (natOfDigits 10 [a, b, c, d]) month) g h
      some rest
    else none
  | _ => none

/-- The text after a time of day. -/
def afterTime? : List Char → Option (List Char)
  | a :: b :: ':' :: c :: d :: ':' :: e :: f :: rest => do
    let _ ← two? 0 23 a b
    let _ ← two? 0 59 c d
    let _ ← two? 0 60 e f
    match rest with
    | '.' :: fraction =>
      let rest := fraction.dropWhile Char.isDigit
      if rest.length = fraction.length then none else some rest
    | rest => some rest
  | _ => none

/-- Whether a text is nothing or the offset of a time zone. -/
def isOffset : List Char → Bool
  | [] => true
  | ['Z'] => true
  | ['z'] => true
  | [sign, a, b, ':', c, d] =>
    (sign == '+' || sign == '-') && (two? 0 23 a b).isSome && (two? 0 59 c d).isSome
  | _ => false

/-- Whether a word is a time, a date, or a date with a time and perhaps an
offset. -/
def isMoment (s : List Char) : Bool :=
  afterTime? s = some [] ||
    match afterDate? s with
    | some [] => true
    | some (mark :: time) =>
      (mark == 'T' || mark == 't' || mark == ' ') && ((afterTime? time).map isOffset).getD false
    | none => false

/-- Whether a word is a number, truth value, date or time. -/
def isScalar : List Char → Bool
  | '0' :: 'x' :: rest => isRadixInteger 16 rest
  | '0' :: 'o' :: rest => isRadixInteger 8 rest
  | '0' :: 'b' :: rest => isRadixInteger 2 rest
  | s => s = "true".toList || s = "false".toList || isInteger s || isFloat s || isMoment s

/-- A character of such a word. -/
def isScalarChar (c : Char) : Bool :=
  isDigitOf 36 c || c == '_' || c == '+' || c == '-' || c == '.' || c == ':'

/-- The word at the front of a text; a single space may separate a date and a
time. -/
def scalarWord (s : List Char) : List Char :=
  let word := s.takeWhile isScalarChar
  match s.drop word.length with
  | ' ' :: rest =>
    let time := rest.takeWhile isScalarChar
    if afterDate? word = some [] ∧ time ≠ [] then word ++ ' ' :: time else word
  | _ => word

end TemplateVars.Toml
