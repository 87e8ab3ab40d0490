/-
Reading TOML documents.

* `Toml.read?` gives the top-level table of a document.

Design notes: a document is read into its lines, and `assemble` puts these
together.  In values every call gets one step less than its caller; a call that
does not end at once takes a character first, so twice as many steps as there
are characters, and a few, suffice.
-/
import TemplateVars.Toml.Basic
import TemplateVars.Toml.Scalar
import TemplateVars.Toml.Text

namespace TemplateVars.Toml

/-- How deep arrays and inline tables may nest. -/
def maxNesting : Nat := 79

namespace Reader

/-- A number, truth value, date or time that starts here. -/
def atom? (s : List Char) : Option (Toml × List Char) :=
  let word := scalarWord s
  if isScalar word then some (.atom (String.ofList word), s.drop word.length) else none

/-- A key with the sign behind it. -/
def assigned? (s : List Char) : Option (List String × List Char) :=
  match key? s with
  | some (key, '=' :: rest) => some (key, skipSpace rest)
  | _ => none

mutual

/-- A value and what follows it, with the levels that may still be opened. -/
def value? : Nat → Nat → List Char → Option (Toml × List Char)
  | 0, _, _ => none
  | _ + 1, _, [] => none
  | steps + 1, levels, c :: rest =>
    if c = '[' then
      if levels = 0 then none
      else (items? steps (levels - 1) (skipLines false rest)).map fun (items, rest) =>
        (.array items, rest)
    else if c = '{' then
      if levels = 0 then none
      else
        match skipSpace rest with
        | '}' :: rest => some (.table .inline [], rest)
        | rest =>
          match entries? steps (levels - 1) rest with
          | none => none
          | some (entries, rest) =>
            (inlineMembers entries).map fun members => (.table .inline members, rest)
    else if c = '\x22' ∨ c = '\'' then
      (string? (c :: rest)).map fun (cs, rest) => (.string (String.ofList cs), rest)
    else atom? (c :: rest)

/-- The items of an array up to its closing bracket; a comma may come before
it. -/
def items? : Nat → Nat → List Char → Option (List Toml × List Char)
  | 0, _, _ => none
  | _ + 1, _, ']' :: rest => some ([], rest)
  | steps + 1, levels, s =>
    match value? steps levels s with
    | none => none
    | some (item, rest) =>
      match skipLines false rest with
      | ',' :: rest =>
        (items? steps levels (skipLines false rest)).map fun (items, rest) => (item :: items, rest)
      | ']' :: rest => some ([item], rest)
      | _ => none

/-- The entries of an inline table up to its closing brace. -/
def entries? : Nat → Nat → List Char → Option (List (List String × Toml) × List Char)
  | 0, _, _ => none
  | steps + 1, levels, s =>
    match assigned? s with
    | none => none
    | some (key, rest) =>
      match value? steps levels rest with
      | none => none
      | some (value, rest) =>
        match skipSpace rest with
        | ',' :: rest =>
          (entries? steps levels rest).map fun (entries, rest) => ((key, value) :: entries, rest)
        | '}' :: rest => some ([(key, value)], rest)
        | _ => none

end

/-- Steps that suffice for a text. -/
def stepsFor (s : List Char) : Nat := 2 * s.length + 2

/-- The line that starts here. -/
def line? : List Char → Option (Line × List Char)
  | '[' :: '[' :: rest =>
    match key? rest with
    | some (path, ']' :: ']' :: rest) => some (.element path, rest)
    | _ => none
  | '[' :: rest =>
    match key? rest with
    | some (path, ']' :: rest) => some (.header path, rest)
    | _ => none
  | s =>
    match assigned? s with
    | some (key, rest) =>
      (value? (stepsFor rest) maxNesting rest).map fun (value, rest) => (.entry key value, rest)
    | none => none

/-- The lines of a text without those that are empty or hold a comment alone; a
step for each line. -/
def lines? : Nat → List Char → Option (List Line)
  | 0, _ => none
  | steps + 1, s =>
    match skipLines false s with
    | [] => some []
    | s =>
      match line? s with
      | none => none
      | some (line, rest) =>
        match lineEnd? rest with
        | none => none
        | some rest => (lines? steps rest).map (line :: ·)

end Reader

/-- A text without the mark of its byte order. -/
def afterMark : List Char → List Char
  | '\ufeff' :: rest => rest
  | s => s

/-- The top-level table of the document that a text spells. -/
def read? (s : String) : Option Members :=
  let s := afterMark s.toList
  (Reader.lines? (s.length + 1) s).bind assemble

end TemplateVars.Toml
