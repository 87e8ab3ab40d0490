/-
Nonnegative binary floating-point numbers with 53 significant bits, and exact
rounding to them.

Design notes: number literals carry no sign, so neither does `Number`.  A finite
value is its significand and binary exponent, normalised by `ofRatio`: below
2^53, and at least 2^52 unless the exponent is the smallest one.  All arithmetic
is exact on natural numbers and rounds once at the end, to nearest and on a tie
to the even significand.
-/

namespace TemplateVars

/-- A nonnegative number: `significand · 2^exponent`, or beyond the largest
finite value. -/
inductive Number where
  | finite (significand : Nat) (exponent : Int)
  | infinite
  deriving DecidableEq, Repr

/-- The quotient of two natural numbers, rounded to nearest and on a tie to
even. -/
def roundHalfEven (num den : Nat) : Nat :=
  let q := num / den
  let r := num % den
  if 2 * r < den then q
  else if den < 2 * r then q + 1
  else q + q % 2

/-- A power with a whole exponent, of which a negative one counts as zero. -/
def power (base : Nat) (exponent : Int) : Nat := Nat.pow base exponent.toNat

namespace Number

/-- The exponent of the smallest positive number. -/
def minExponent : Int := -1074

/-- The exponent of the largest finite number. -/
def maxExponent : Int := 971

def zero : Number := finite 0 minExponent

/-- Whether `num / den < 2^e`. -/
private def below (num den : Nat) (e : Int) : Bool :=
  num * power 2 (-e) < den * power 2 e

/-- The number nearest to `num / den`, with an even significand on a tie. -/
def ofRatio (num den : Nat) : Number :=
  if num = 0 then zero
  else
    let estimate : Int := num.log2 - den.log2
    let top := if below num den estimate then estimate - 1 else estimate
    let exponent := max (top - 52) minExponent
    let significand := roundHalfEven (num * power 2 (-exponent)) (den * power 2 exponent)
    let (significand, exponent) :=
      if significand = Nat.pow 2 53 then (Nat.pow 2 52, exponent + 1) else (significand, exponent)
    if exponent > maxExponent then infinite else finite significand exponent

/-- The number nearest to a natural number. -/
def ofNat (n : Nat) : Number := ofRatio n 1

/-- A finite number as numerator and denominator. -/
def ratio (significand : Nat) (exponent : Int) : Nat × Nat :=
  (significand * power 2 exponent, power 2 (-exponent))

/-- The product, rounded. -/
def mul : Number → Number → Number
  | finite m p, finite n q =>
    let (a, b) := ratio m p
    let (c, d) := ratio n q
    ofRatio (a * c) (b * d)
  | _, _ => infinite

/-- `x · factor + term`, rounded. -/
def mulAdd : Number → Nat → Nat → Number
  | finite m q, factor, term =>
    let (a, b) := ratio m q
    ofRatio (a * factor + term * b) b
  | infinite, _, _ => infinite

/-- The number that digits of a radix spell, read from the left with a rounding
after each digit. -/
def ofDigits (radix : Nat) (ds : List Nat) : Number :=
  ds.foldl (fun x d => x.mulAdd radix d) zero

end Number

end TemplateVars
