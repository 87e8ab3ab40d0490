/-
A pass of the lexer, token by token.

`Lexer.Reads l access ts` says that a pass from the state `l` reads the tokens `ts`, and
of each token where the gap before it ends, what its reader returned, and the state
behind it.

* `Lexer.reads_tokensFrom` — a pass reads the tokens that it returns;
* `Lexer.Reads.eq_tokensFrom` — and no others.

Design notes: proofs about passes go by induction on `Reads`, so that how
`Lexer.tokensFrom` comes to its end is no concern of theirs.
-/
import TemplateVars.Proofs.Token.Kinds

namespace TemplateVars.Lexer

/-- The tokens of a pass from some state. -/
inductive Reads : Lexer → Bool → List Token → Prop where
  /-- A comment that never ends. -/
  | comment {l : Lexer} {access : Bool} {start used : Nat}
      (hgap : Gap.scan l.rest = .unterminated start used) :
      Reads l access [⟨.invalid .unterminatedComment, (l.skip start).position,
        (l.skip used).position.offset, false⟩]
  | ended {l : Lexer} {access newline : Bool} {used : Nat}
      (hgap : Gap.scan l.rest = .passed newline used) (hrest : (l.skip used).rest = []) :
      Reads l access [⟨.eof, (l.skip used).position, (l.skip used).position.offset, newline⟩]
  | failed {l : Lexer} {access newline : Bool} {used n : Nat} {first : Char} {s : List Char}
      {cause : LexError} (hgap : Gap.scan l.rest = .passed newline used)
      (hrest : (l.skip used).rest = first :: s)
      (hscan : scanToken l.regexAllowed l.braces first s = .error cause n) :
      Reads l access [⟨.invalid cause, (l.skip used).position,
        ((l.skip used).skip (n + 1)).position.offset, false⟩]
  | token {l : Lexer} {access newline : Bool} {used n : Nat} {first : Char} {s : List Char}
      {kind : TokenKind} {ts : List Token} (hgap : Gap.scan l.rest = .passed newline used)
      (hrest : (l.skip used).rest = first :: s)
      (hscan : scanToken l.regexAllowed l.braces first s = .ok kind n)
      (h : Reads (((l.skip used).skip (n + 1)).after kind access) kind.isAccess ts) :
      Reads l access (⟨kind, (l.skip used).position,
        ((l.skip used).skip (n + 1)).position.offset, newline⟩ :: ts)

theorem reads_tokensFrom (l : Lexer) (access : Bool) : Reads l access (l.tokensFrom access).1 := by
  fun_induction tokensFrom l access with
  | case1 l access start used hgap => exact .comment hgap
  | case2 l access newline used hgap here hrest => exact .ended hgap hrest
  | case3 l access newline used hgap here first s hrest cause n hscan =>
    rw [skip_regexAllowed, skip_braces] at hscan
    exact .failed hgap hrest hscan
  | case4 l access newline used hgap here first s hrest kind n hscan next token ts final hnext ih =>
    rw [skip_regexAllowed, skip_braces] at hscan
    rw [hnext] at ih
    exact .token hgap hrest hscan ih

/-- The last token of a pass, and no other one, is terminal. -/
theorem Reads.init {l : Lexer} {access : Bool} {ts : List Token} (h : Reads l access ts) :
    ∃ us final, ts = us ++ [final] ∧ (∀ u ∈ us, u.kind.isTerminal = false) ∧
      final.kind.isTerminal = true := by
  induction h with
  | comment => exact ⟨[], _, rfl, nofun, rfl⟩
  | ended => exact ⟨[], _, rfl, nofun, rfl⟩
  | failed => exact ⟨[], _, rfl, nofun, rfl⟩
  | @token l access newline used n first s kind ts _ _ hscan _ ih =>
    obtain ⟨us, final, rfl, hus, hfinal⟩ := ih
    have hlive := scanToken_live l.regexAllowed l.braces first s
    rw [hscan] at hlive
    exact ⟨_ :: us, final, rfl, List.forall_mem_cons.2 ⟨hlive, hus⟩, hfinal⟩

/-- What a pass reads is determined by the state that it starts from. -/
theorem Reads.unique {l : Lexer} {access : Bool} {ts us : List Token} (h : Reads l access ts)
    (h' : Reads l access us) : ts = us := by
  -- another rule would need another gap, another text behind it or another outcome
  induction h generalizing us with
  | comment hgap => cases h' <;> simp_all [-skip_rest]
  | ended hgap hrest => cases h' <;> simp_all [-skip_rest]
  | failed hgap hrest hscan => cases h' <;> simp_all [-skip_rest]
  | token hgap hrest hscan _ ih =>
    cases h' with
    | token hgap' hrest' hscan' h' =>
      cases hgap.symm.trans hgap'
      cases hrest.symm.trans hrest'
      cases hscan.symm.trans hscan'
      rw [ih h']
    | _ => simp_all [-skip_rest]

theorem Reads.eq_tokensFrom {l : Lexer} {access : Bool} {ts : List Token}
    (h : Reads l access ts) : ts = (l.tokensFrom access).1 :=
  h.unique (reads_tokensFrom l access)

end TemplateVars.Lexer

/-- The last token of a text, and no other one, is terminal. -/
theorem TemplateVars.tokenize_init (source : String) : ∃ us final,
    tokenize source = us ++ [final] ∧ (∀ u ∈ us, u.kind.isTerminal = false) ∧
      final.kind.isTerminal = true :=
  (Lexer.reads_tokensFrom (.ofText source.toList) false).init
