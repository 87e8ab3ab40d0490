/-
The gap before a token: line terminators, blanks, and comments.

Design notes: a comment between `/*` and `*/` that holds a line terminator
counts as one.  A comment that never ends is a failure at its first character;
everything up to the end of the text is used by it.
-/
import TemplateVars.Text.Classes

namespace TemplateVars

open Text

/-- What stands between two tokens. -/
inductive Gap where
  /-- Characters to pass over, and whether a line terminator is among them. -/
  | passed (newline : Bool) (used : Nat)
  /-- A comment that starts after `start` characters and never ends. -/
  | unterminated (start used : Nat)
  deriving DecidableEq, Repr

namespace Gap

/-- The gap with `n` more characters before it, and whether those cross a line. -/
def behind (newline : Bool) (n : Nat) : Gap → Gap
  | passed later used => passed (newline || later) (n + used)
  | unterminated start used => unterminated (n + start) (n + used)

/-- The characters up to the end of a comment, its closing mark included, and
whether a line terminator is among them. -/
def comment? : List Char → Option (Bool × Nat)
  | [] => none
  | '*' :: '/' :: _ => some (false, 2)
  | c :: rest => (comment? rest).map fun (newline, n) => (isLineTerminator c || newline, n + 1)

/-- The gap at the front of a text. -/
def scan : List Char → Gap
  | [] => passed false 0
  | c :: rest =>
    if isLineTerminator c then (scan rest).behind true 1
    else if isBlank c then (scan rest).behind false 1
    else if c = '/' then
      match rest with
      | '/' :: body =>
        let line := body.takeWhile (!isLineTerminator ·)
        (scan (body.drop line.length)).behind false (2 + line.length)
      | '*' :: body =>
        match comment? body with
        | some (newline, n) => (scan (body.drop n)).behind newline (2 + n)
        | none => unterminated 0 (2 + body.length)
      | _ => passed false 0
    else passed false 0
termination_by s => s.length
decreasing_by
  all_goals simp only [List.length_cons, List.length_drop]
  all_goals omega

end Gap

end TemplateVars
