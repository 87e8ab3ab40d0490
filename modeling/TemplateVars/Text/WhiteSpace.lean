/-
The Unicode property White_Space.  U+FEFF does not have it.
-/
import TemplateVars.Text.CodePoints

namespace TemplateVars.Text

/-- The code points with the Unicode property White_Space. -/
def whiteSpaceRanges : CodePoints :=
  [(0x9, 0xD), (0x20, 0x20), (0x85, 0x85), (0xA0, 0xA0), (0x1680, 0x1680),
   (0x2000, 0x200A), (0x2028, 0x2029), (0x202F, 0x202F), (0x205F, 0x205F),
   (0x3000, 0x3000)]

/-- Whether a character has the property White_Space. -/
def isWhiteSpace (c : Char) : Bool := whiteSpaceRanges.contains c.toNat

end TemplateVars.Text
