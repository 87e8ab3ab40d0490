/-
Which tokens the readers of the lexer return.

* `scanToken_all` — a property of all the kinds that some reader may return at a
  place holds of the token that is read there;
* `Lexer.tokens_induction` — induction over the tokens of a pass, by the state
  of the lexer before each of them.

Design notes: a reader is known here by the kinds it returns and by its first
character, not by the characters it uses.
-/
import TemplateVars.Token.Lexer

namespace TemplateVars

open Text

namespace Scan

variable {α β : Type}

/-- Whether a value, if one was read, satisfies a property. -/
def All (p : α → Prop) : Scan α → Prop
  | ok a _ => p a
  | error _ _ => True

theorem All.shift {p : α → Prop} {s : Scan α} (h : s.All p) (n : Nat) : (s.shift n).All p := by
  cases s with
  | ok a m => exact h
  | error e m => trivial

theorem All.map {p : β → Prop} {f : α → β} {s : Scan α} (h : ∀ a, p (f a)) : (s.map f).All p := by
  cases s with
  | ok a m => exact h a
  | error e m => trivial

theorem All.andThen {p : β → Prop} {s : Scan α} {next : α → Nat → Scan β}
    (h : ∀ a n, (next a n).All p) : (s.andThen next).All p := by
  cases s with
  | ok a m => exact h a m
  | error e m => trivial

theorem shift_ok {s : Scan α} {k n : Nat} {a : α} (h : s.shift k = .ok a n) :
    ∃ m, s = .ok a m ∧ n = k + m := by
  cases s with
  | ok b m => cases h; exact ⟨m, rfl, rfl⟩
  | error e m => exact nomatch h

theorem map_ok {s : Scan α} {f : α → β} {n : Nat} {b : β} (h : s.map f = .ok b n) :
    ∃ a, s = .ok a n ∧ b = f a := by
  cases s with
  | ok a m => cases h; exact ⟨a, rfl, rfl⟩
  | error e m => exact nomatch h

end Scan

/-- What was read with characters before it. -/
theorem Quoted.before_ok {cs value : List Char} {k n : Nat} {s : Scan (List Char)}
    (h : before cs k s = .ok value n) : ∃ v m, s = .ok v m ∧ value = cs ++ v ∧ n = k + m := by
  obtain ⟨m, hmap, rfl⟩ := Scan.shift_ok h
  obtain ⟨v, hs, rfl⟩ := Scan.map_ok hmap
  exact ⟨v, m, hs, rfl, rfl⟩

/-! ### Numerals -/

namespace Numeral

variable {p : TokenKind → Prop}

theorem closed_all {literal : Scan TokenKind} (n : Nat) (after : List Char)
    (h : literal.All p) : (closed n after literal).All p := by
  unfold closed
  split
  · split
    · trivial
    · exact h
  · exact h

theorem scanRadix_all (hnumber : ∀ v, p (.number v)) (hbigint : ∀ ds, p (.bigint ds))
    (radix : Nat) (s : List Char) : (scanRadix radix s).All p := by
  unfold scanRadix
  simp only []
  split
  · trivial
  · split
    · exact closed_all _ _ (hbigint _)
    · exact closed_all _ _ (hnumber _)

theorem scanDecimal_all (hnumber : ∀ v, p (.number v)) (hbigint : ∀ ds, p (.bigint ds))
    (first : Char) (s : List Char) : (scanDecimal first s).All p := by
  refine Scan.All.andThen fun r n => ?_
  simp only []
  split
  · exact closed_all _ _ (hbigint _)
  · refine closed_all _ _ ?_
    split
    · exact hnumber _
    · trivial

theorem scan_all (hnumber : ∀ v, p (.number v)) (hbigint : ∀ ds, p (.bigint ds)) (first : Char)
    (s : List Char) : (scan first s).All p := by
  unfold scan
  split
  · split
    · exact (scanRadix_all hnumber hbigint _ _).shift 1
    · exact scanDecimal_all hnumber hbigint _ _
  · exact scanDecimal_all hnumber hbigint _ _

end Numeral

/-! ### Words and marks -/

/-- Whether a word starts and goes on as a name does. -/
def isWord : List Char → Bool
  | first :: rest => isIdentifierStart first && rest.all isIdentifierPart
  | [] => false

namespace Lexer

variable {p : TokenKind → Prop}

/-- Each mark is spelled as it is listed. -/
theorem marks_spelled : ∀ m ∈ marks, m.1 ≠ [] ∧ m.2.spelling?.map String.toList = some m.1 := by
  decide +kernel

theorem scanWord_all (first : Char) (s : List Char) (hfirst : isIdentifierStart first = true)
    (h : ∀ word, isWord word = true → p (.ofWord (String.ofList word))) :
    (scanWord first s).All p := by
  unfold scanWord
  simp only []
  split
  · trivial
  · refine h _ ?_
    rw [isWord, hfirst, Bool.true_and, List.all_takeWhile]

theorem scanMark_all (first : Char) (s : List Char)
    (h : ∀ text kind, (text, kind) ∈ marks → text.isPrefixOf (first :: s) = true → p kind) :
    (scanMark first s).All p := by
  unfold scanMark
  split
  · next text kind hmark =>
    have hpre := List.find?_some hmark
    rw [Bool.and_eq_true] at hpre
    exact h text kind (List.mem_of_find?_eq_some hmark) hpre.1
  · split <;> trivial

/-- What holds of all kinds that the readers for a place may return holds of the
token at the place. -/
theorem scanToken_all {regexAllowed : Bool} {braces : List Brace} {first : Char} {s : List Char}
    (hpiece : ∀ opening piece, (opening = false → first = '}' ∧ braces.head? = some .substitution) →
      p (pieceToken opening piece))
    (hstring : ∀ text, p (.string text))
    (hnumber : ∀ v, p (.number v)) (hbigint : ∀ ds, p (.bigint ds))
    (hregex : regexAllowed = true → ∀ pattern flags, p (.regex pattern flags))
    (hword : ∀ word, isWord word = true → p (.ofWord (String.ofList word)))
    (hmark : ¬(first = '}' ∧ braces.head? = some .substitution) →
      (first = '/' → regexAllowed = false) → ∀ text kind, (text, kind) ∈ marks →
      text.isPrefixOf (first :: s) = true → p kind) :
    (scanToken regexAllowed braces first s).All p := by
  unfold scanToken
  split
  · next h => exact Scan.All.map fun piece => hpiece false piece fun _ => h
  next hgoes =>
  · split
    · exact Scan.All.map fun text => hstring _
    · split
      · exact Scan.All.map fun piece => hpiece true piece nofun
      · split
        · exact Numeral.scan_all hnumber hbigint first s
        · split
          · next h => exact Scan.All.andThen fun pattern n => hregex h.2 _ _
          · next h =>
            split
            · next hfirst => exact scanWord_all first s hfirst hword
            · -- a slash comes here only where it opens no regular expression
              refine scanMark_all first s (hmark hgoes fun hslash => ?_)
              exact Bool.eq_false_iff.2 fun hr => h ⟨hslash, hr⟩

/-- No mark is a terminal token. -/
theorem marks_live : ∀ m ∈ marks, m.2.isTerminal = false := by decide +kernel

/-- A token that was read is not terminal. -/
theorem scanToken_live (regexAllowed : Bool) (braces : List Brace) (first : Char)
    (s : List Char) :
    (scanToken regexAllowed braces first s).All fun k => k.isTerminal = false := by
  refine scanToken_all ?_ (fun _ => rfl) (fun _ => rfl) (fun _ => rfl) (fun _ _ _ => rfl) ?_ ?_
  · intro opening piece _
    obtain ⟨text, ending⟩ := piece
    cases ending <;> cases opening <;> rfl
  · intro word _
    unfold TokenKind.ofWord
    split
    · rfl
    · split <;> rfl
  · exact fun _ _ text kind hmem _ => marks_live _ hmem

/-! ### The tokens of a pass -/

/-- Passing over characters changes neither what a slash may open nor the open braces. -/
theorem skip_state (n : Nat) (l : Lexer) :
    (l.skip n).regexAllowed = l.regexAllowed ∧ (l.skip n).braces = l.braces := by
  fun_induction skip n l with
  | case1 => exact ⟨rfl, rfl⟩
  | case2 => exact ⟨rfl, rfl⟩
  | case3 _ _ _ _ _ ih => exact ih

@[simp] theorem skip_regexAllowed (n : Nat) (l : Lexer) :
    (l.skip n).regexAllowed = l.regexAllowed :=
  (skip_state n l).1

@[simp] theorem skip_braces (n : Nat) (l : Lexer) : (l.skip n).braces = l.braces :=
  (skip_state n l).2

/-- Induction over the tokens of a pass: the last one is terminal, and each
other one was read in the state before it and is followed by the tokens from the
state after it. -/
theorem tokens_induction {motive : Lexer → Bool → List Token → Prop}
    (last : ∀ l afterAccess t, t.kind.isTerminal = true → motive l afterAccess [t])
    (more : ∀ (l : Lexer) (afterAccess : Bool) first s n t (next : Lexer) ts,
      scanToken l.regexAllowed l.braces first s = .ok t.kind n →
      next.regexAllowed =
        (!(afterAccess && t.kind.keywordText?.isSome) && t.kind.allowsRegexAfter) →
      next.braces = t.kind.bracesAfter l.braces →
      motive next t.kind.isAccess ts → motive l afterAccess (t :: ts))
    (l : Lexer) (afterAccess : Bool) : motive l afterAccess (l.tokensFrom afterAccess).1 := by
  fun_induction tokensFrom l afterAccess with
  | case1 => exact last _ _ _ rfl
  | case2 => exact last _ _ _ rfl
  | case3 => exact last _ _ _ rfl
  | case4 l afterAccess newline used _ here first s _ kind n hscan next token ts final hnext ih =>
    rw [skip_regexAllowed, skip_braces] at hscan
    rw [hnext] at ih
    refine more l afterAccess first s n token next ts hscan ?_ ?_ ih
    · simp [next, after, token]
    · simp [next, here, after, token]

end Lexer

end TemplateVars
