/-
The braces that are open between tokens.

The lexer keeps a stack of them, and reads a `}` as what the innermost one asks for.
`Braced before ks after` says that tokens of the kinds `ks` can be read from the one
stack and leave the other.

* `Lexer.scanToken_fits` — a `}` on its own closes no substitution, and a piece behind a
  substitution stands in one.

Design notes: `Braced` knows nothing of the text, so it may be shown of a piece of the
tokens what it does to any stack.
-/
import TemplateVars.Proofs.Token.Kinds

namespace TemplateVars

/-- Whether a token of some kind may be read inside some braces. -/
def TokenKind.Fits (inside : List Brace) : TokenKind → Prop
  | punct .rightBrace => inside.head? ≠ some .substitution
  | templateMiddle _ => inside.head? = some .substitution
  | templateTail _ => inside.head? = some .substitution
  | _ => True

/-- Tokens read between one stack of open braces and another. -/
inductive Braced : List Brace → List TokenKind → List Brace → Prop where
  | nil (inside : List Brace) : Braced inside [] inside
  | cons {inside final : List Brace} {k : TokenKind} {ks : List TokenKind} (hk : k.Fits inside)
      (h : Braced (k.bracesAfter inside) ks final) : Braced inside (k :: ks) final

theorem Braced.of_append {inside final : List Brace} {ks ks' : List TokenKind}
    (h : Braced inside (ks ++ ks') final) :
    ∃ between, Braced inside ks between ∧ Braced between ks' final := by
  induction ks generalizing inside with
  | nil => exact ⟨inside, .nil inside, h⟩
  | cons k ks ih =>
    cases h with
    | cons hk h =>
      obtain ⟨between, hks, hks'⟩ := ih h
      exact ⟨between, .cons hk hks, hks'⟩

namespace Lexer

/-- What is read fits the braces that are open there. -/
theorem scanToken_fits (regexAllowed : Bool) (inside : List Brace) (first : Char)
    (s : List Char) : (scanToken regexAllowed inside first s).All (TokenKind.Fits inside) := by
  refine scanToken_all ?_ (fun _ => trivial) (fun _ => trivial) (fun _ => trivial)
    (fun _ _ _ => trivial) ?_ ?_
  · intro opening piece hgoes
    obtain ⟨text, ending⟩ := piece
    cases opening with
    | true => cases ending <;> trivial
    | false => cases ending <;> exact (hgoes rfl).2
  · intro word _
    unfold TokenKind.ofWord
    split
    · trivial
    · split <;> trivial
  · intro hgoes _ text kind hmem hprefix
    have hspelled := (marks_spelled _ hmem).2
    unfold TokenKind.Fits
    split
    · -- the brace would have gone on with a template
      intro hinside
      obtain rfl : ['}'] = text := Option.some.inj hspelled
      have hfirst := (List.cons_prefix_cons.1 (List.isPrefixOf_iff_prefix.1 hprefix)).1
      exact hgoes ⟨hfirst.symm, hinside⟩
    · exact nomatch hspelled
    · exact nomatch hspelled
    · trivial

end Lexer

end TemplateVars
