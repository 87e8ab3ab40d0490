/-
What a reader makes of tokens that are written out.

`Reads k p ts a after` says that `p` reads `a` from the tokens `ts` and leaves
`after`, as long as `k` more levels may be opened; if they may not, it may also
fail with `tooDeep`, but in no other way.

* `Reads.bind`, `Reads.nested`, `Reads.collect_more` and the like — one rule for
  each way to put readers together;
* `Reads.operand` up to `Reads.sequence` — what one rule of the grammar reads, a
  looser one reads too, if the token behind it binds loosely enough.

Design notes: `bindingRank` orders the tokens that may stand behind an operand by
the loosest rule that goes on with them.
-/
import TemplateVars.Proofs.Grammar.Levels
import TemplateVars.Proofs.Grammar.Triple

namespace TemplateVars

/-- Whether a reader reads a value from tokens and leaves others, unless it would
open more than the `k` levels below. -/
def Reads {α : Type} (k : Nat) (p : Parse α) (ts : List Token) (a : α) (after : List Token) :
    Prop :=
  ∀ d, p ⟨ts, d⟩ = .ok a ⟨after, d⟩ ∨
    (maxDepth < d + k ∧ ∃ e s, p ⟨ts, d⟩ = .error e s ∧ e.cause = .tooDeep)

namespace Reads

variable {α β : Type} {k : Nat} {p : Parse α} {f : α → Parse β} {ts mid after : List Token}
  {t : Token} {a : α} {b : β} {mark : Punctuator}

theorem mono {k' : Nat} (h : Reads k p ts a after) (hk : k ≤ k') : Reads k' p ts a after := by
  intro d
  rcases h d with hok | ⟨hdeep, herr⟩
  · exact .inl hok
  · exact .inr ⟨by omega, herr⟩

theorem pure (k : Nat) (a : α) (ts : List Token) : Reads k (Pure.pure a) ts a ts :=
  fun _ => .inl rfl

/-- What starts with a reader fails as that one does, and otherwise goes on from
where it stopped. -/
theorem continue_with {q : Parse β} (h : Reads k p ts a mid)
    (hok : ∀ d, p ⟨ts, d⟩ = .ok a ⟨mid, d⟩ → q ⟨ts, d⟩ = .ok b ⟨after, d⟩ ∨
      (maxDepth < d + k ∧ ∃ e s, q ⟨ts, d⟩ = .error e s ∧ e.cause = .tooDeep))
    (herr : ∀ d e s, p ⟨ts, d⟩ = .error e s → q ⟨ts, d⟩ = .error e s) :
    Reads k q ts b after := by
  intro d
  rcases h d with hp | ⟨hdeep, e, s, hp, he⟩
  · exact hok d hp
  · exact .inr ⟨hdeep, e, s, herr d e s hp, he⟩

theorem bind (hp : Reads k p ts a mid) (hf : Reads k (f a) mid b after) :
    Reads k (p >>= f) ts b after := by
  -- only `p` may be cut short before `f a` begins, and at the same depth
  refine hp.continue_with (fun d h => ?_) fun d e s h => Parse.bind_of_error h
  rw [Parse.bind_of_ok h]
  exact hf d

theorem ite_pos {c : Prop} [Decidable c] {q : Parse α} (hc : c) (h : Reads k p ts a after) :
    Reads k (if c then p else q) ts a after := by
  rw [if_pos hc]
  exact h

theorem ite_neg {c : Prop} [Decidable c] {q : Parse α} (hc : ¬c) (h : Reads k q ts a after) :
    Reads k (if c then p else q) ts a after := by
  rw [if_neg hc]
  exact h

theorem kind_bind {f : TokenKind → Parse β} (h : Reads k (f (headKind ts)) ts b after) :
    Reads k (Parse.kind >>= f) ts b after := h

theorem ahead_bind {f : Token → Parse β} {n : Nat}
    (h : Reads k (f ((Stream.mk ts 0).ahead n)) ts b after) :
    Reads k (Parse.ahead n >>= f) ts b after := h

theorem get_bind {f : Stream → Parse β} (h : ∀ d, Reads k (f ⟨ts, d⟩) ts b after) :
    Reads k (MonadState.get >>= f) ts b after :=
  fun d => h d d

theorem check_yes {f : Bool → Parse β} (ht : headKind ts = .punct mark)
    (h : Reads k (f true) ts b after) : Reads k (Parse.check mark >>= f) ts b after := by
  rw [← decide_eq_true ht] at h
  exact h

theorem check_no {f : Bool → Parse β} (ht : headKind ts ≠ .punct mark)
    (h : Reads k (f false) ts b after) : Reads k (Parse.check mark >>= f) ts b after := by
  rw [← decide_eq_false ht] at h
  exact h

theorem advance_bind {f : Unit → Parse β} (ht : t.kind.isTerminal = false)
    (h : Reads k (f ()) ts b after) : Reads k (Parse.advance >>= f) (t :: ts) b after := by
  refine bind (fun d => .inl ?_) h
  exact congrArg (EStateM.Result.ok ()) (advance_cons ht ts d)

theorem advance_of {f : Unit → Parse β} {kind : TokenKind} (ht : t.kind = kind)
    (hkind : kind.isTerminal = false) (h : Reads k (f ()) ts b after) :
    Reads k (Parse.advance >>= f) (t :: ts) b after :=
  advance_bind (ht ▸ hkind) h

theorem accept_yes {f : Bool → Parse β} (ht : t.kind = .punct mark)
    (h : Reads k (f true) ts b after) : Reads k (Parse.accept mark >>= f) (t :: ts) b after := by
  refine bind (fun d => .inl ?_) h
  show (if t.kind = .punct mark then _ else _) = _
  rw [if_pos ht]
  exact congrArg (EStateM.Result.ok true) (advance_cons (ht ▸ rfl) ts d)

theorem accept_no {f : Bool → Parse β} (ht : headKind ts ≠ .punct mark)
    (h : Reads k (f false) ts b after) : Reads k (Parse.accept mark >>= f) ts b after :=
  bind (fun _ => .inl (if_neg ht)) h

theorem expect_bind {f : Unit → Parse β} {wanted : Expected} (ht : t.kind = .punct wanted.mark)
    (h : Reads k (f ()) ts b after) : Reads k (Parse.expect wanted >>= f) (t :: ts) b after := by
  refine bind (fun d => .inl ?_) h
  show (if t.kind = .punct wanted.mark then _ else _) = _
  rw [if_pos ht]
  exact congrArg (EStateM.Result.ok ()) (advance_cons (ht ▸ rfl) ts d)

/-- A level deeper one level fewer may be opened. -/
theorem nested (hts : ∀ e, headKind ts ≠ .invalid e) (h : Reads k p ts a after) :
    Reads (k + 1) (Parse.nested p) ts a after := by
  intro d
  unfold Parse.nested
  by_cases hdeep : maxDepth ≤ d
  · -- no level is left; a token that cannot be read would be reported instead
    refine .inr ⟨by omega, _, _, if_pos hdeep, ?_⟩
    simp only [Stream.errorHere]
    split
    · next heq => exact absurd heq (hts _)
    · rfl
  · rw [if_neg hdeep]
    -- the reader runs a level deeper, and the level is given back behind it
    rcases h (d + 1) with hok | ⟨hmore, e, s, herr, he⟩
    · refine .inl ?_
      simp only [hok]
      rfl
    · refine .inr ⟨by omega, e, { s with depth := s.depth - 1 }, ?_, he⟩
      simp only [herr]

section

variable {as : List α} {round : Parse (Parse.Item α)} {link : α → Parse (Option α)}
  {b c : α}

theorem collect_stop (h : Reads k round ts .stop after) :
    Reads k (Parse.collect round) ts [] after :=
  h.continue_with (fun _ hr => .inl (Parse.collect_of_stop hr)) fun _ _ _ => Parse.collect_of_error

theorem collect_last (h : Reads k round ts (.last a) after) :
    Reads k (Parse.collect round) ts [a] after :=
  h.continue_with (fun _ hr => .inl (Parse.collect_of_last hr)) fun _ _ _ => Parse.collect_of_error

theorem collect_more (h : Reads k round ts (.more a) mid) (hlen : mid.length < ts.length)
    (hrest : Reads k (Parse.collect round) mid as after) :
    Reads k (Parse.collect round) ts (a :: as) after := by
  refine h.continue_with (fun d hr => ?_) fun _ _ _ => Parse.collect_of_error
  rw [Parse.collect_of_more hr hlen]
  exact hrest.bind (pure k (a :: as) after) d

theorem chain_stop (h : Reads k (link a) ts none after) :
    Reads k (Parse.chain link a) ts a after :=
  h.continue_with (fun _ hl => .inl (Parse.chain_of_none hl)) fun _ _ _ => Parse.chain_of_error

theorem chain_link (h : Reads k (link a) ts (some b) mid) (hlen : mid.length < ts.length)
    (hrest : Reads k (Parse.chain link b) mid c after) :
    Reads k (Parse.chain link a) ts c after := by
  refine h.continue_with (fun d hl => ?_) fun _ _ _ => Parse.chain_of_error
  rw [Parse.chain_of_some hl hlen]
  exact hrest d

end

/-- What a rule of the grammar does, it does by the rules of the grammar. -/
theorem unfold (rule : Rules → Parse α) (h : Reads k (rule Grammar.grammar.step) ts a after) :
    Reads k (rule Grammar.grammar) ts a after := by
  rw [grammar_step] at h
  exact h

end Reads

/-! ### The order of the rules for operators -/

/-- The loosest rule that goes on behind an operand with a token of this kind. -/
def bindingRank : TokenKind → Nat
  | .punct .arrow => 8
  | .punct .dot => 7
  | .punct .questionDot => 7
  | .punct .leftBracket => 7
  | .punct .leftParen => 7
  | .template _ => 7
  | .templateHead _ => 7
  | .punct .plusPlus => 6
  | .punct .minusMinus => 6
  | .punct .starStar => 5
  | .punct .question => 3
  | .assign _ => 2
  | .punct .comma => 1
  | k => if k.infixOperator?.isSome then 4 else 0

theorem infixOperator_eq_none {k : TokenKind} (h : bindingRank k < 4) :
    k.infixOperator? = none := by
  unfold bindingRank at h
  split at h
  -- every token that the table names has a rank of its own or is no operator
  case h_14 =>
    by_cases hk : k.infixOperator?.isSome
    · rw [if_pos hk] at h
      omega
    · exact Option.not_isSome_iff_eq_none.1 hk
  all_goals rfl

theorem updateOperator_eq_none {k : TokenKind} (h : bindingRank k < 6) :
    k.updateOperator? = none := by
  unfold TokenKind.updateOperator?
  split
  · exact absurd h (by decide)
  · exact absurd h (by decide)
  · rfl

/-- Whether a token stands in front of no operator of its own. -/
structure StartsOperand (k : TokenKind) : Prop where
  unary : k.unaryOperator? = none
  update : k.updateOperator? = none
  valid : ∀ e, k ≠ .invalid e

/-- Whether the first token of an operand belongs to its primary expression. -/
structure StartsPrimary (k : TokenKind) : Prop extends StartsOperand k where
  not_new : k ≠ .keyword .new

namespace Reads

open Grammar (grammar)

variable {k : Nat} {ts after : List Token} {e : Expr}

theorem suffix_stop (hafter : bindingRank (headKind after) < 7) (k : Nat) (allowCalls : Bool)
    (object : Expr) : Reads k (Rule.suffix grammar allowCalls object) after none after := by
  refine kind_bind ?_
  split
  case h_7 => exact pure k none after
  -- the tokens that go on with a chain all have rank 7
  all_goals
    next heq =>
      rw [heq] at hafter
      exact absurd hafter (Nat.lt_irrefl 7)

theorem operand (h : Reads k grammar.primary ts e after) (hts : headKind ts ≠ .keyword .new)
    (hafter : bindingRank (headKind after) < 7) : Reads k grammar.operand ts e after := by
  refine .unfold (·.operand) (kind_bind ?_)
  show Reads k (if headKind ts = .keyword .new then _ else _) ts e after
  rw [if_neg hts]
  refine .bind h (.unfold (fun r => r.suffixes true e) ?_)
  exact chain_stop (suffix_stop hafter k true e)

theorem unary (h : Reads k grammar.operand ts e after) (hts : StartsOperand (headKind ts))
    (hafter : bindingRank (headKind after) < 6) : Reads k grammar.unary ts e after := by
  refine .unfold (·.unary) (kind_bind ?_)
  rw [hts.unary, hts.update]
  refine .bind h (ahead_bind ?_)
  have hkind : ((Stream.mk after 0).ahead 0).kind = headKind after := by cases after <;> rfl
  rw [hkind, updateOperator_eq_none hafter]
  exact pure k e after

theorem exponent (h : Reads k grammar.unary ts e after)
    (hafter : bindingRank (headKind after) < 5) : Reads k grammar.exponent ts e after := by
  refine .unfold (·.exponent) (.bind h (.accept_no ?_ (pure k e after)))
  intro heq
  rw [heq] at hafter
  exact absurd hafter (by decide)

theorem infixLink_stop (hafter : bindingRank (headKind after) < 4) (k minPrecedence : Nat)
    (left : Expr) : Reads k (Rule.infixLink grammar minPrecedence left) after none after := by
  refine kind_bind ?_
  rw [infixOperator_eq_none hafter]
  exact pure k none after

theorem binary (h : Reads k grammar.exponent ts e after)
    (hafter : bindingRank (headKind after) < 4) (minPrecedence : Nat) :
    Reads k (grammar.binary minPrecedence) ts e after := by
  refine .unfold (·.binary minPrecedence) (.bind h ?_)
  exact chain_stop (infixLink_stop hafter k minPrecedence e)

theorem conditional (h : Reads k (grammar.binary 1) ts e after)
    (hafter : bindingRank (headKind after) < 3) : Reads k grammar.conditional ts e after := by
  refine .unfold (·.conditional) (.bind h (.accept_no ?_ (pure k e after)))
  intro heq
  rw [heq] at hafter
  exact absurd hafter (by decide)

theorem assignment (h : Reads k grammar.conditional ts e after)
    (hts : ∀ e, headKind ts ≠ .invalid e) (hafter : bindingRank (headKind after) < 2) :
    Reads (k + 1) grammar.assignment ts e after := by
  refine .unfold (·.assignment) (.nested hts (.bind h (kind_bind ?_)))
  split
  · next heq =>
    rw [heq] at hafter
    exact absurd hafter (Nat.lt_irrefl 2)
  · exact pure k e after

theorem sequence (h : Reads k grammar.assignment ts e after)
    (hafter : bindingRank (headKind after) < 1) : Reads k grammar.sequence ts e after := by
  refine .unfold (·.sequence) (.bind h (.bind (collect_stop (.accept_no ?_ (pure k _ after))) ?_))
  · intro heq
    rw [heq] at hafter
    exact absurd hafter (by decide)
  · exact pure k e after

/-- An operand between operators that bind as loosely as can be is a whole
expression. -/
theorem sequence_of_unary (h : Reads k grammar.unary ts e after)
    (hts : ∀ e, headKind ts ≠ .invalid e) (hafter : bindingRank (headKind after) = 0) :
    Reads (k + 1) grammar.sequence ts e after :=
  ((((h.exponent (by omega)).binary (by omega) 1).conditional (by omega)).assignment hts
    (by omega)).sequence (by omega)

/-- A sequence at the end of a text is the expression at its start. -/
theorem expression {last : Token} (hlast : last.kind = .eof)
    (h : Reads k grammar.sequence ts e [last]) : Reads k Parse.expression ts e [last] := by
  refine .bind h (.kind_bind ?_)
  rw [show headKind [last] = .eof from hlast]
  exact .pure k e [last]

theorem complete {last : Token} (hlast : last.kind = .eof)
    (h : Reads k grammar.sequence ts e [last]) : Reads k Parse.complete ts e [last] :=
  .bind (h.expression hlast) (.kind_bind (.ite_pos hlast (.pure k e [last])))

/-- What opens no more levels than there are is read from the start. -/
theorem complete_run {last : Token} (hlast : last.kind = .eof)
    (h : Reads maxDepth grammar.sequence ts e [last]) :
    Parse.complete.run { rest := ts } = (.ok e, { rest := [last] }) := by
  rcases h.complete hlast 0 with hok | ⟨hdeep, -⟩
  · exact Parse.run_ok_iff.2 hok
  · exact absurd hdeep (by decide)

end Reads

end TemplateVars
