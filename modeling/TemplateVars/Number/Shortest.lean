/-
The decimal text of a number: the fewest digits that read back as the number,
always in positional notation.

Design notes: the reals that round to a number form an interval around it, its
ends included exactly when the significand is even.  For one digit, two digits,
and so on, the two neighbours of the value on that decimal grid are tested
against the interval; the first grid with a hit decides how many digits are
written, the nearer of two hits is taken, and an exact tie goes up.  Seventeen
digits always hit.  A number that is a power of two lies nearer to its lower
neighbour, so its interval is lopsided.
-/
import TemplateVars.Number.Basic

namespace TemplateVars.Number

/-- A positive number and the ends of the interval of reals that round to it,
over one denominator. -/
structure Neighbourhood where
  low : Nat
  value : Nat
  high : Nat
  unit : Nat
  closed : Bool

/-- The reals that round to `significand · 2^exponent`. -/
def neighbourhood (significand : Nat) (exponent : Int) : Neighbourhood :=
  let (scale, unit) := ratio 1 (exponent - 2)
  let below := if significand = Nat.pow 2 52 ∧ exponent > minExponent then 1 else 2
  { low := (4 * significand - below) * scale
    value := 4 * significand * scale
    high := (4 * significand + 2) * scale
    unit := unit
    closed := significand % 2 = 0 }

namespace Neighbourhood

/-- Compares `n · 10^grid` with `x / unit`. -/
def compareAt (v : Neighbourhood) (grid : Int) (n x : Nat) : Ordering :=
  compare (n * power 10 grid * v.unit) (x * power 10 (-grid))

/-- Whether `n · 10^grid` rounds to the number. -/
def holds (v : Neighbourhood) (grid : Int) (n : Nat) : Bool :=
  match v.compareAt grid n v.low, v.compareAt grid n v.high with
  | .gt, .lt => true
  | .eq, _ => v.closed
  | _, .eq => v.closed
  | _, _ => false

/-- The point of a grid that stands for the number, if one of the value's two
neighbours on it does. -/
def onGrid? (v : Neighbourhood) (grid : Int) : Option Nat :=
  let down := v.value * power 10 (-grid) / (v.unit * power 10 grid)
  let up := down + 1
  match v.holds grid down, v.holds grid up with
  | false, false => none
  | true, false => some down
  | false, true => some up
  | true, true =>
    -- Below the midpoint of its neighbours the value is nearer to the lower one.
    if v.compareAt grid (down + up) (2 * v.value) = .gt then some down else some up

/-- The exponent of the value's leading digit. -/
def leadingExponent (v : Neighbourhood) : Int :=
  (Nat.toDigits 10 (v.value * power 10 400 / v.unit)).length - 401

/-- The shortest digits that read back, with the exponent of the last one. -/
def shortest (v : Neighbourhood) : Nat × Int :=
  let top := v.leadingExponent
  let found := (List.range 17).findSome? fun (n : Nat) =>
    (v.onGrid? (top - n)).map fun digits => (digits, top - n)
  found.getD (v.value, 0)

end Neighbourhood

/-- The text of `digits · 10^exponent` without an exponent. -/
def positional (digits : Nat) (exponent : Int) : List Char :=
  let ds := Nat.toDigits 10 digits
  if 0 ≤ exponent then ds ++ List.replicate exponent.toNat '0'
  else
    let places := (-exponent).toNat
    let ds := List.replicate (places + 1 - ds.length) '0' ++ ds
    let whole := ds.take (ds.length - places)
    let fraction := (ds.drop (ds.length - places)).reverse.dropWhile (· == '0') |>.reverse
    if fraction = [] then whole else whole ++ '.' :: fraction

/-- The text of a number. -/
def text : Number → String
  | finite 0 _ => "0"
  | finite significand exponent =>
    let (digits, grid) := (neighbourhood significand exponent).shortest
    String.ofList (positional digits grid)
  | infinite => "inf"

/-- A number with one digit after the point, a tie going to the even digit. -/
def textOnePlace : Number → String
  | finite significand exponent =>
    let (num, den) := ratio significand exponent
    let tenths := roundHalfEven (num * 10) den
    String.ofList (Nat.toDigits 10 (tenths / 10) ++ '.' :: Nat.toDigits 10 (tenths % 10))
  | infinite => "inf"

end TemplateVars.Number
