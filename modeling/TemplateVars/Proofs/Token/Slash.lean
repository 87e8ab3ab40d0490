/-
What the lexer makes of a slash, from the tokens before it.

* `slashOpensRegex` — whether a slash behind some tokens opens a regular
  expression;
* `tokenize_slashesRight` — each regular expression among the tokens of a text
  stands where a slash opens one, and no slash that divides does;
* `tokenize_ended` — the last token of a text is terminal.

Design notes: the tokens before a place are listed from the nearest back.  The
lexer looks at the nearest one only, and at the one before that to tell a keyword
from the name of a property.
-/
import TemplateVars.Proofs.Token.Kinds

namespace TemplateVars

/-- Whether the nearest of the tokens before a place is `.` or `?.`. -/
def afterAccess : List Token → Bool
  | [] => false
  | t :: _ => t.kind.isAccess

/-- Whether a slash behind these tokens, the nearest first, opens a regular
expression. -/
def slashOpensRegex : List Token → Bool
  | [] => true
  | t :: before => !(afterAccess before && t.kind.keywordText?.isSome) && t.kind.allowsRegexAfter

/-- Whether a token may stand where a slash does or does not open a regular
expression. -/
def SlashRight (opens : Bool) : TokenKind → Prop
  | .regex _ _ => opens = true
  | .punct .slash => opens = false
  | .assign .divide => opens = false
  | _ => True

/-- Whether each token may stand where it does, behind the tokens before it. -/
def SlashesRight : List Token → List Token → Prop
  | _, [] => True
  | before, t :: rest =>
    SlashRight (slashOpensRegex before) t.kind ∧ SlashesRight (t :: before) rest

/-- Whether the last of some tokens is terminal. -/
def Ended : List Token → Prop
  | [] => False
  | [t] => t.kind.isTerminal = true
  | _ :: t :: rest => Ended (t :: rest)

theorem SlashesRight.of_append {before first rest : List Token}
    (h : SlashesRight before (first ++ rest)) : SlashesRight (first.reverse ++ before) rest := by
  induction first generalizing before with
  | nil => exact h
  | cons t first ih =>
    rw [List.reverse_cons, List.append_assoc]
    exact ih h.2

theorem slashRight_of_terminal {kind : TokenKind} (h : kind.isTerminal = true) (opens : Bool) :
    SlashRight opens kind := by
  cases kind with
  | invalid e => trivial
  | eof => trivial
  | _ => exact nomatch h

namespace Lexer

/-- No mark is a regular expression, and those that stand for a slash begin with
one. -/
theorem marks_slash : ∀ m ∈ marks, (m.2 matches .regex _ _) = false ∧
    (m.2 = .punct .slash ∨ m.2 = .assign .divide → m.1.head? = some '/') := by
  decide +kernel

theorem scanToken_slashRight (regexAllowed : Bool) (braces : List Brace) (first : Char)
    (s : List Char) :
    (scanToken regexAllowed braces first s).All (SlashRight regexAllowed) := by
  refine scanToken_all ?_ (fun _ => trivial) (fun _ => trivial) (fun _ => trivial)
    (fun h _ _ => h) ?_ ?_
  · intro opening piece _
    obtain ⟨text, ending⟩ := piece
    cases ending <;> cases opening <;> trivial
  · intro word _
    unfold TokenKind.ofWord
    split
    · trivial
    · split <;> trivial
  · intro _ hslash text kind hmem hprefix
    obtain ⟨hregex, hhead⟩ := marks_slash _ hmem
    -- a mark for a slash is read only where the text has one
    have hfirst : kind = .punct .slash ∨ kind = .assign .divide → regexAllowed = false := by
      intro hkind
      have hslashed : text.head? = some '/' := hhead hkind
      cases text with
      | nil => exact nomatch hslashed
      | cons c text =>
        rw [List.isPrefixOf_cons_cons, Bool.and_eq_true] at hprefix
        have hc : c = '/' := Option.some.inj hslashed
        exact hslash ((beq_iff_eq.1 hprefix.1).symm.trans hc)
    unfold SlashRight
    split
    · exact nomatch hregex
    · exact hfirst (.inl rfl)
    · exact hfirst (.inr rfl)
    · trivial

theorem tokens_slashesRight (l : Lexer) (access : Bool) {before : List Token}
    (haccess : access = afterAccess before) (hallowed : l.regexAllowed = slashOpensRegex before) :
    SlashesRight before (l.tokensFrom access).1 := by
  -- the state of the lexer says of the next slash what the tokens before it do
  induction l, access using tokens_induction generalizing before with
  | last l access t ht => exact ⟨slashRight_of_terminal ht _, trivial⟩
  | more l access first s n t next ts hscan hnext hbraces ih =>
    have hright := scanToken_slashRight l.regexAllowed l.braces first s
    rw [hscan] at hright
    refine ⟨hallowed ▸ hright, ih rfl ?_⟩
    rw [hnext, haccess]
    rfl

theorem tokens_ended (l : Lexer) (access : Bool) : Ended (l.tokensFrom access).1 := by
  induction l, access using tokens_induction with
  | last l access t ht => exact ht
  | more l access first s n t next ts hscan hnext hbraces ih =>
    cases ts with
    | nil => exact ih.elim
    | cons u us => exact ih

end Lexer

theorem tokenize_slashesRight (source : String) : SlashesRight [] (tokenize source) :=
  Lexer.tokens_slashesRight _ false rfl rfl

theorem tokenize_ended (source : String) : Ended (tokenize source) :=
  Lexer.tokens_ended _ false

end TemplateVars
