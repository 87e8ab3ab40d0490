/-
Sets of Unicode code points, written as ascending lists of inclusive ranges.

Design notes: a property of the Unicode standard is data, so each has a module
of its own that holds nothing but its ranges.  The search runs from the low end
and stops at the first range that starts above the code point; ASCII text, the
common case, is decided within the first few ranges of every table.
-/

namespace TemplateVars.Text

/-- Inclusive ranges of code points, lowest first. -/
abbrev CodePoints := List (Nat × Nat)

namespace CodePoints

/-- Whether a range holds `n`, reading the ranges as ascending. -/
def contains : CodePoints → Nat → Bool
  | [], _ => false
  | (low, high) :: rest, n => low ≤ n && (n ≤ high || contains rest n)

end CodePoints

end TemplateVars.Text
