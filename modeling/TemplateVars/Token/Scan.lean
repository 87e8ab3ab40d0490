/-
The outcome of reading one piece of text from the front of a character list.

Design notes: a reader gets the characters ahead of it and says how many of them
it used, whether it succeeded or failed; after a failure, reading goes on from
where the failed reader stopped.  Positions are no concern of a reader: they
follow from the number of characters used.
-/
import TemplateVars.Token.Basic

namespace TemplateVars

/-- A value read, or the cause of a failure, and the number of characters
used. -/
inductive Scan (α : Type) where
  | ok (value : α) (used : Nat)
  | error (cause : LexError) (used : Nat)
  deriving Repr

namespace Scan

variable {α β : Type}

/-- The outcome seen from `n` characters further back. -/
def shift (n : Nat) : Scan α → Scan α
  | ok value used => ok value (n + used)
  | error cause used => error cause (n + used)

/-- Goes on with what was read and the number of characters used. -/
def andThen (s : Scan α) (next : α → Nat → Scan β) : Scan β :=
  match s with
  | ok value used => next value used
  | error cause used => error cause used

def map (f : α → β) (s : Scan α) : Scan β :=
  s.andThen fun value used => ok (f value) used

end Scan

end TemplateVars
