/-
Reading JSON documents.

* `Json.read?` is the strict reader: numbers must be within the range of
  floating-point numbers, escaped surrogates must come in pairs, and arrays and
  objects nest at most `maxNesting` deep;
* `Json.Reader.value .skimming` checks the grammar alone, for values that are
  not used.

Design notes: every call gets one step less than its caller.  A call that does
not end at once takes a character first, so twice as many steps as there are
characters, and a few, suffice.
-/
import TemplateVars.Json.Basic
import TemplateVars.Number.Basic
import TemplateVars.Text.Classes

namespace TemplateVars.Json

open Text

/-- How deep arrays and objects may nest. -/
def maxNesting : Nat := 127

/-- How much a reader checks. -/
inductive Mode where
  | strict | skimming
  deriving DecidableEq, Repr

/-- The space between the parts of a document. -/
def isSpace (c : Char) : Bool := c == ' ' || c == '\n' || c == '\t' || c == '\r'

def skipSpace (s : List Char) : List Char := s.dropWhile isSpace

namespace Reader

/-- The number of four hexadecimal digits. -/
def hex4? (a b c d : Char) : Option Nat :=
  if [a, b, c, d].all (isDigitOf 16) then some (natOfDigits 16 [a, b, c, d]) else none

/-- The character of a two-character escape. -/
def shortEscape? : Char → Option Char
  | '\x22' => some '\x22'
  | '\\' => some '\\'
  | '/' => some '/'
  | 'b' => some '\x08'
  | 'f' => some '\x0c'
  | 'n' => some '\n'
  | 'r' => some '\r'
  | 't' => some '\t'
  | _ => none

def isHighSurrogate (code : Nat) : Bool := 0xD800 ≤ code && code ≤ 0xDBFF

def isLowSurrogate (code : Nat) : Bool := 0xDC00 ≤ code && code ≤ 0xDFFF

/-- The code point of a pair of surrogates. -/
def pairCode (high low : Nat) : Nat := 0x10000 + (high - 0xD800) * 0x400 + (low - 0xDC00)

/-- What a text may start with inside a string: its end, or one character with
the number of characters it is written with. -/
inductive Piece where
  | closing
  | char (c : Char) (used : Nat)

/-- The next piece of a string. -/
def piece? (mode : Mode) : List Char → Option Piece
  | '\\' :: 'u' :: a :: b :: c :: d :: rest =>
    match hex4? a b c d with
    | none => none
    | some code =>
      if mode = .skimming then some (.char '\ufffd' 6)
      else if isHighSurrogate code then
        match rest with
        | '\\' :: 'u' :: e :: f :: g :: h :: _ =>
          match hex4? e f g h with
          | some low =>
            if isLowSurrogate low then some (.char (Char.ofNat (pairCode code low)) 12) else none
          | none => none
        | _ => none
      else if isLowSurrogate code then none
      else some (.char (Char.ofNat code) 6)
  | '\\' :: c :: _ => (shortEscape? c).map fun d => .char d 2
  | c :: _ =>
    if c = '\x22' then some .closing
    else if c = '\\' ∨ c.toNat < 0x20 then none
    else some (.char c 1)
  | [] => none

theorem used_bounds {mode : Mode} {s : List Char} {c : Char} {n : Nat}
    (h : piece? mode s = some (.char c n)) : 0 < n ∧ n ≤ s.length := by
  unfold piece? at h
  repeat' split at h
  all_goals simp_all
  all_goals omega

/-- A string from the character after its opening mark. -/
def string? (mode : Mode) (s : List Char) : Option (List Char × List Char) :=
  match _h : piece? mode s with
  | none => none
  | some .closing => some ([], s.tail)
  | some (.char c n) =>
    (string? mode (s.drop n)).map fun (cs, rest) => (c :: cs, rest)
termination_by s.length
decreasing_by
  have := used_bounds _h
  simp only [List.length_drop]
  omega

/-- The parts of a number. -/
structure NumberText where
  negative : Bool
  whole : List Char
  /-- The digits behind the point. -/
  fraction : List Char
  exponentNegative : Bool
  exponent : List Char

/-- Digits, at least one, and what follows them. -/
def digits? (s : List Char) : Option (List Char × List Char) :=
  let ds := s.takeWhile Char.isDigit
  if ds = [] then none else some (ds, s.drop ds.length)

/-- A fraction, if a point follows. -/
def fraction? : List Char → Option (List Char × List Char)
  | '.' :: rest => digits? rest
  | s => some ([], s)

/-- An exponent and whether it is negative, if its mark follows. -/
def exponent? : List Char → Option (Bool × List Char × List Char)
  | c :: rest =>
    if c = 'e' ∨ c = 'E' then
      match rest with
      | '-' :: rest => (digits? rest).map fun (ds, rest) => (true, ds, rest)
      | '+' :: rest => (digits? rest).map fun (ds, rest) => (false, ds, rest)
      | rest => (digits? rest).map fun (ds, rest) => (false, ds, rest)
    else some (false, [], c :: rest)
  | [] => some (false, [], [])

/-- A number and what follows it; no zero leads another digit. -/
def number? (s : List Char) : Option (NumberText × List Char) := do
  let negative := s.head? = some '-'
  let (whole, rest) ← digits? (if negative then s.tail else s)
  if whole.head? = some '0' ∧ whole.length ≠ 1 then none
  let (fraction, rest) ← fraction? rest
  let (exponentNegative, exponent, rest) ← exponent? rest
  some (⟨negative, whole, fraction, exponentNegative, exponent⟩, rest)

/-- The first digits of a number, as many as fit a word of 64 bits, and how many
are left. -/
def leadingDigits (n : Nat) : List Char → Nat × Nat
  | [] => (n, 0)
  | d :: ds =>
    let m := n * 10 + (digitValue? 10 d).getD 0
    if m < Nat.pow 2 64 then leadingDigits m ds else (n, ds.length + 1)

/-- Whether a number is within the range of floating-point numbers, computed as
its leading digits times a power of ten, with a rounding for each factor and for
the product. -/
def NumberText.inRange (t : NumberText) : Bool :=
  let (n, dropped) := leadingDigits 0 t.whole
  let (n, ignored) := leadingDigits n t.fraction
  let scale : Int := dropped - (t.fraction.length - ignored : Nat)
  let written : Int := natOfDigits 10 t.exponent
  let exponent := if t.exponentNegative then scale - written else scale + written
  if n = 0 ∨ exponent < 0 then true
  else if exponent > 308 then false
  else (Number.ofNat n).mul (Number.ofNat (power 10 exponent)) ≠ .infinite

/-- Takes a literal word. -/
def word? (text : String) (value : Json) (s : List Char) : Option (Json × List Char) :=
  if text.toList.isPrefixOf s then some (value, s.drop text.length) else none

/-- Takes a character that has to be there, after some space. -/
def mark? (c : Char) (s : List Char) : Option (List Char) :=
  match skipSpace s with
  | d :: rest => if d = c then some rest else none
  | [] => none

/-- A number that starts here. -/
def numberValue? (mode : Mode) (s : List Char) : Option (Json × List Char) := do
  let (text, rest) ← number? s
  if mode = .strict ∧ !text.inRange then none
  some (.number (String.ofList (s.take (s.length - rest.length))), rest)

mutual

/-- A value and what follows it, with the levels that may still be opened. -/
def value (mode : Mode) : Nat → Nat → List Char → Option (Json × List Char)
  | 0, _, _ => none
  | steps + 1, levels, s =>
    match skipSpace s with
    | [] => none
    | c :: rest =>
      if c = '{' then
        if mode = .strict ∧ levels = 0 then none
        else match mark? '}' rest with
          | some rest => some (.object [], rest)
          | none => (members mode steps (levels - 1) rest).map fun (ms, rest) => (.object ms, rest)
      else if c = '[' then
        if mode = .strict ∧ levels = 0 then none
        else match mark? ']' rest with
          | some rest => some (.array [], rest)
          | none => (items mode steps (levels - 1) rest).map fun (vs, rest) => (.array vs, rest)
      else if c = '\x22' then
        (string? mode rest).map fun (cs, rest) => (.string (String.ofList cs), rest)
      else if c = 'n' then word? "null" .null (c :: rest)
      else if c = 't' then word? "true" (.bool true) (c :: rest)
      else if c = 'f' then word? "false" (.bool false) (c :: rest)
      else numberValue? mode (c :: rest)

/-- The items of an array up to its closing bracket. -/
def items (mode : Mode) : Nat → Nat → List Char → Option (List Json × List Char)
  | 0, _, _ => none
  | steps + 1, levels, s =>
    match value mode steps levels s with
    | none => none
    | some (v, rest) =>
      match mark? ',' rest with
      | some rest => (items mode steps levels rest).map fun (vs, rest) => (v :: vs, rest)
      | none => (mark? ']' rest).map fun rest => ([v], rest)

/-- The members of an object up to its closing brace. -/
def members (mode : Mode) : Nat → Nat → List Char → Option (List (String × Json) × List Char)
  | 0, _, _ => none
  | steps + 1, levels, s =>
    match (mark? '\x22' s).bind (string? mode) with
    | none => none
    | some (key, rest) =>
      match (mark? ':' rest).bind (value mode steps levels) with
      | none => none
      | some (v, rest) =>
        match mark? ',' rest with
        | some rest =>
          (members mode steps levels rest).map fun (ms, rest) =>
            ((String.ofList key, v) :: ms, rest)
        | none => (mark? '}' rest).map fun rest => ([(String.ofList key, v)], rest)

end

/-- Steps that suffice for a text. -/
def stepsFor (s : List Char) : Nat := 2 * s.length + 2

end Reader

/-- The document that a text spells, read strictly. -/
def read? (s : String) : Option Json :=
  match Reader.value .strict (Reader.stepsFor s.toList) maxNesting s.toList with
  | some (v, rest) => if skipSpace rest = [] then some v else none
  | none => none

end TemplateVars.Json
