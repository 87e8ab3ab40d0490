/-
Trimming of white space, and the braces around a template expression.

Design notes: an expression field writes its expression as `{ … }`.  The braces
are dropped only as a pair; what stands between them keeps its blanks, which the
tokens do not see.
-/
import TemplateVars.Text.WhiteSpace

namespace TemplateVars.Text

/-- A text without the white space at its end. -/
def trimEnd (s : List Char) : List Char :=
  (s.reverse.dropWhile isWhiteSpace).reverse

/-- A text without the white space at its two ends. -/
def trim (s : List Char) : List Char :=
  trimEnd (s.dropWhile isWhiteSpace)

/-- The text between an opening brace at its start and a closing brace at its
end, once trimmed; the trimmed text itself when it is not enclosed so. -/
def stripDelimiters (s : List Char) : List Char :=
  match trim s with
  | '{' :: rest => if rest.getLast? = some '}' then rest.dropLast else '{' :: rest
  | t => t

/-- Whether nothing but white space is in a text. -/
def isBlankText (s : List Char) : Bool :=
  s.all isWhiteSpace

end TemplateVars.Text
