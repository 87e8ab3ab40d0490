/-
Operators between groups are read back.

* `Expr.ReadBack` — whether an expression is read from its spelling;
* `Expr.Recovers.primary` up to `Expr.Recovers.sequence` — what is read back in a
  group is an operand of each kind;
* `readBack_binary` and the like — so what operators make of such operands is
  read back in turn.

Design notes: each lemma opens the rules on the tokens that the spelling writes
out, and goes up from the rule that reads the form to `sequence`.
-/
import TemplateVars.Proofs.Grammar.Reading
import TemplateVars.Proofs.Grammar.Spelling

namespace TemplateVars

open Grammar (grammar)
open Spelling

/-- Whether a group or the whole text ends here. -/
def Closing : List Token → Prop
  | [] => False
  | t :: _ => t.kind = .punct .rightParen ∨ t.kind = .eof

theorem Closing.bindingRank {after : List Token} (h : Closing after) :
    bindingRank (headKind after) = 0 := by
  cases after with
  | nil => exact h.elim
  | cons t rest =>
    rw [headKind_cons]
    rcases h with h | h
    · rw [h]; rfl
    · rw [h]; rfl

theorem closing_rightParen (after : List Token) : Closing (mark .rightParen :: after) := .inl rfl

theorem startsPrimary_leftParen : StartsPrimary (.punct .leftParen) := ⟨⟨rfl, rfl, nofun⟩, nofun⟩

/-- Whether an expression is read from its spelling where a group or the text
ends behind it, when `k` levels may be opened. -/
def Expr.ReadBack (k : Nat) (e : Expr) : Prop :=
  ∀ after, Closing after → Reads k grammar.sequence (e.tokens ++ after) e after

/-- Whether an expression is read from its spelling in a group. -/
structure Expr.Recovers (k : Nat) (e : Expr) : Prop where
  balanced : Balanced e.tokens
  readBack : e.ReadBack k

theorem group_append (ts after : List Token) :
    group ts ++ after = mark .leftParen :: (ts ++ mark .rightParen :: after) := by
  simp [group, between]

theorem arrowNext_eq_false {after : List Token} (h : bindingRank (headKind after) < 8) :
    arrowNext after = false := by
  cases after with
  | nil => rfl
  | cons t rest =>
    have hne : t.kind ≠ .punct .arrow := by
      intro heq
      rw [headKind_cons, heq] at h
      exact absurd h (by decide)
    simp [arrowNext, hne]

/-- A group is read as a primary expression if it is not followed by `=>`. -/
theorem Reads.group {k : Nat} {o c : Token} {us after : List Token} {e : Expr}
    (ho : o.kind = .punct .leftParen) (hc : c.kind = .punct .rightParen)
    (harrow : arrowFollows (o :: (us ++ c :: after)) = false)
    (h : Reads k grammar.sequence (us ++ c :: after) e (c :: after)) :
    Reads k grammar.primary (o :: (us ++ c :: after)) e after := by
  refine .unfold (·.primary) (.kind_bind ?_)
  rw [headKind_cons, ho]
  refine .unfold (·.parenthesized false) (.get_bind fun _ => ?_)
  refine .ite_neg (Bool.eq_false_iff.1 harrow) (.advance_of ho rfl (.bind h ?_))
  exact .expect_bind hc (.pure k e after)

namespace Expr.Recovers

variable {k k' : Nat} {e : Expr} {after : List Token}

theorem mono (h : e.Recovers k) (hk : k ≤ k') : e.Recovers k' :=
  ⟨h.balanced, fun after hafter => (h.readBack after hafter).mono hk⟩

theorem primary (h : e.Recovers k) (hafter : bindingRank (headKind after) < 8) :
    Reads k grammar.primary (group e.tokens ++ after) e after := by
  have harrow := (arrowFollows_group h.balanced after).trans (arrowNext_eq_false hafter)
  rw [group_append] at harrow ⊢
  exact .group rfl rfl harrow (h.readBack _ (closing_rightParen after))

theorem operand (h : e.Recovers k) (hafter : bindingRank (headKind after) < 7) :
    Reads k grammar.operand (group e.tokens ++ after) e after :=
  (h.primary (by omega)).operand nofun hafter

theorem unary (h : e.Recovers k) (hafter : bindingRank (headKind after) < 6) :
    Reads k grammar.unary (group e.tokens ++ after) e after :=
  (h.operand (by omega)).unary startsPrimary_leftParen.toStartsOperand hafter

theorem exponent (h : e.Recovers k) (hafter : bindingRank (headKind after) < 5) :
    Reads k grammar.exponent (group e.tokens ++ after) e after :=
  (h.unary (by omega)).exponent hafter

theorem binary (h : e.Recovers k) (hafter : bindingRank (headKind after) < 4)
    (minPrecedence : Nat) :
    Reads k (grammar.binary minPrecedence) (group e.tokens ++ after) e after :=
  (h.exponent (by omega)).binary hafter minPrecedence

theorem conditional (h : e.Recovers k) (hafter : bindingRank (headKind after) < 3) :
    Reads k grammar.conditional (group e.tokens ++ after) e after :=
  (h.binary (by omega) 1).conditional hafter

theorem assignment (h : e.Recovers k) (hafter : bindingRank (headKind after) < 2) :
    Reads (k + 1) grammar.assignment (group e.tokens ++ after) e after :=
  (h.conditional (by omega)).assignment nofun hafter

theorem sequence (h : e.Recovers k) (hafter : bindingRank (headKind after) < 1) :
    Reads (k + 1) grammar.sequence (group e.tokens ++ after) e after :=
  (h.assignment (by omega)).sequence hafter

end Expr.Recovers

/-! ### Leaves -/

section

variable {k : Nat} {after : List Token}

/-- Whether a name in front of some tokens is nothing but a name: it is not the parameter of
an arrow function, nor does a function begin with it. -/
def StandsAlone (name : String) : List Token → Prop
  | [] => False
  | next :: _ => next.kind ≠ .punct .arrow ∧ (name = "async" →
      next.kind ≠ .keyword .function ∧ next.kind ≠ .punct .leftParen ∧
        ∀ word, next.kind ≠ .identifier word)

theorem Closing.standsAlone (h : Closing after) (name : String) : StandsAlone name after := by
  cases after with
  | nil => exact h.elim
  | cons next rest =>
    have hne : ∀ k, k ≠ .punct .rightParen → k ≠ .eof → next.kind ≠ k := by
      rintro k hparen heof rfl
      exact h.elim hparen heof
    exact ⟨hne _ nofun nofun, fun _ => ⟨hne _ nofun nofun, hne _ nofun nofun,
      fun _ => hne _ nofun nofun⟩⟩

/-- A name that stands alone is a name, also if it is `async`. -/
theorem reads_aloneName {t : Token} {name : String} (ht : t.kind = .identifier name)
    (hafter : StandsAlone name after) (k : Nat) :
    Reads k grammar.primary (t :: after) (.identifier name) after := by
  have hlive : t.kind.isTerminal = false := by rw [ht]; rfl
  obtain ⟨next, rest, rfl⟩ : ∃ next rest, after = next :: rest := by
    cases after with
    | nil => exact hafter.elim
    | cons next rest => exact ⟨next, rest, rfl⟩
  obtain ⟨harrow, hfunction⟩ := hafter
  have hname : Reads k (Rule.nameOrArrow grammar name) (t :: next :: rest) (.identifier name)
      (next :: rest) :=
    .ahead_bind (.advance_bind hlive (.ite_neg (fun h => harrow h.1) (.pure k _ _)))
  refine .unfold (·.primary) (.kind_bind ?_)
  rw [headKind_cons, ht]
  by_cases hword : name = "async"
  · obtain ⟨hkeyword, hparen, hidentifier⟩ := hfunction hword
    have hasync : Reads k grammar.asyncFunction? (t :: next :: rest) none
        (t :: next :: rest) := by
      refine .unfold (·.asyncFunction?) (.ahead_bind ?_)
      have hnext : (Stream.mk (t :: next :: rest) 0).ahead 1 = next := rfl
      rw [hnext]
      by_cases hline : next.newlineBefore = true
      · exact .ite_pos hline (.pure k _ _)
      · refine .ite_neg hline ?_
        split
        · next h => exact absurd h hkeyword
        · next word h => exact absurd h (hidentifier word)
        · next h => exact absurd h hparen
        · exact .pure k _ _
    exact .ite_pos hword (.bind hasync hname)
  · exact .ite_neg hword (.bind (.pure k none _) hname)

theorem reads_name {t : Token} {name : String} (ht : t.kind = .identifier name)
    (hafter : Closing after) (k : Nat) :
    Reads k grammar.primary (t :: after) (.identifier name) after :=
  reads_aloneName ht (hafter.standsAlone name) k

theorem startsPrimary_identifier (name : String) : StartsPrimary (.identifier name) :=
  ⟨⟨rfl, rfl, nofun⟩, nofun⟩

/-- A name that is all of a group or text is read as an expression. -/
theorem reads_nameAlone {t : Token} {name : String} (ht : t.kind = .identifier name)
    (hafter : Closing after) (k : Nat) :
    Reads (k + 1) grammar.sequence (t :: after) (.identifier name) after := by
  have hstart : StartsPrimary (headKind (t :: after)) := by
    rw [headKind_cons, ht]
    exact startsPrimary_identifier name
  have hrank := hafter.bindingRank
  exact (((reads_name ht hafter k).operand hstart.not_new (by omega)).unary
    hstart.toStartsOperand (by omega)).sequence_of_unary hstart.valid hrank

theorem readBack_identifier (k : Nat) (name : String) : (Expr.identifier name).ReadBack (k + 1) :=
  fun _ hafter => reads_nameAlone rfl hafter k

/-- What is read as a unary expression is read as an expression. -/
theorem readBack_of_unary {e : Expr}
    (hstart : ∀ after e', headKind (e.tokens ++ after) ≠ .invalid e')
    (h : ∀ after, Closing after → Reads k grammar.unary (e.tokens ++ after) e after) :
    e.ReadBack (k + 1) :=
  fun after hafter => (h after hafter).sequence_of_unary (hstart after) hafter.bindingRank

/-- What is read as a primary expression is read as an expression. -/
theorem readBack_of_primary {e : Expr}
    (hstart : ∀ after, StartsPrimary (headKind (e.tokens ++ after)))
    (h : ∀ after, Closing after → Reads k grammar.primary (e.tokens ++ after) e after) :
    e.ReadBack (k + 1) := by
  refine readBack_of_unary (fun after => (hstart after).valid) fun after hafter => ?_
  have hrank := hafter.bindingRank
  exact ((h after hafter).operand (hstart after).not_new (by omega)).unary
    (hstart after).toStartsOperand (by omega)

theorem readBack_literal (k : Nat) (value : Literal) : (Expr.literal value).ReadBack (k + 1) := by
  refine readBack_of_primary (fun after => ?_) fun after _ => ?_
  · cases value with
    | boolean b => cases b <;> exact ⟨⟨rfl, rfl, nofun⟩, nofun⟩
    | _ => exact ⟨⟨rfl, rfl, nofun⟩, nofun⟩
  · refine .unfold (·.primary) (.kind_bind ?_)
    cases value with
    | boolean b => cases b <;> exact .advance_bind rfl (.pure k _ after)
    | _ => exact .advance_bind rfl (.pure k _ after)

theorem readBack_this (k : Nat) : Expr.this.ReadBack (k + 1) :=
  readBack_of_primary (fun _ => ⟨⟨rfl, rfl, nofun⟩, nofun⟩) fun after _ =>
    .unfold (·.primary) (.kind_bind (.advance_bind rfl (.pure k _ after)))

theorem readBack_super (k : Nat) : Expr.super.ReadBack (k + 1) :=
  readBack_of_primary (fun _ => ⟨⟨rfl, rfl, nofun⟩, nofun⟩) fun after _ =>
    .unfold (·.primary) (.kind_bind (.advance_bind rfl (.pure k _ after)))

end

/-! ### Operators -/

theorem BinaryOperator.infixOperator (op : BinaryOperator) (h : op ≠ .exponent) :
    ∃ precedence, op.token.kind.infixOperator? = some (precedence, .binary op) ∧
      1 ≤ precedence := by
  have hop : op.token.kind.infixOperator?.map (·.2) = some (.binary op) := by
    cases op
    case exponent => exact absurd rfl h
    all_goals rfl
  obtain ⟨⟨precedence, op'⟩, hfind, rfl⟩ := Option.map_eq_some_iff.1 hop
  exact ⟨precedence, hfind, (TokenKind.precedence_bounds hfind).1⟩

theorem LogicalOperator.infixOperator (op : LogicalOperator) :
    ∃ precedence, op.token.kind.infixOperator? = some (precedence, .logical op) ∧
      1 ≤ precedence := by
  have hop : op.token.kind.infixOperator?.map (·.2) = some (.logical op) := by
    cases op <;> rfl
  obtain ⟨⟨precedence, op'⟩, hfind, rfl⟩ := Option.map_eq_some_iff.1 hop
  exact ⟨precedence, hfind, (TokenKind.precedence_bounds hfind).1⟩

theorem UnaryOperator.unaryOperator (op : UnaryOperator) :
    op.token.kind.unaryOperator? = some op ∧
      op.token.kind ≠ .keyword .new := by
  cases op <;> exact ⟨rfl, nofun⟩

theorem UpdateOperator.updateOperator (op : UpdateOperator) :
    op.token.kind.unaryOperator? = none ∧
      op.token.kind.updateOperator? = some op := by
  cases op <;> exact ⟨rfl, rfl⟩

theorem Token.live_of_isPlain {t : Token} (h : t.isPlain = true) : t.kind.isTerminal = false := by
  simp only [Token.isPlain, Bool.and_eq_true, Bool.not_eq_true'] at h
  exact h.2

theorem Token.valid_of_isPlain {t : Token} (h : t.isPlain = true) :
    ∀ e, t.kind ≠ .invalid e := by
  intro e heq
  have hlive := live_of_isPlain h
  rw [heq] at hlive
  exact nomatch hlive

theorem bindingRank_of_infixOperator {k : TokenKind} {x : Nat × InfixOperator}
    (h : k.infixOperator? = some x) : bindingRank k = 4 := by
  unfold TokenKind.infixOperator? at h
  split at h <;> first | rfl | exact nomatch h

variable {k : Nat} {e left right : Expr}

/-- Groups on both sides of an infix operator are its operands. -/
theorem reads_infixOperator {op : InfixOperator} {t : Token} {precedence : Nat} {after : List Token}
    (ht : t.isPlain = true) (hop : t.kind.infixOperator? = some (precedence, op))
    (hpos : 1 ≤ precedence) (hl : left.Recovers k) (hr : right.Recovers k)
    (hafter : Closing after) :
    Reads (k + 1) grammar.sequence (group left.tokens ++ t :: group right.tokens ++ after)
      (op.apply left right) after := by
  have hrank := hafter.bindingRank
  have hrank' : bindingRank (headKind (t :: (group right.tokens ++ after))) = 4 :=
    bindingRank_of_infixOperator hop
  rw [List.append_assoc, List.cons_append]
  -- the operator is taken at the first link, and the right group is its operand
  -- whatever the precedence, since no operator follows it
  have hlink : Reads k (Rule.infixLink grammar 1 left) (t :: (group right.tokens ++ after))
      (some (op.apply left right)) after := by
    refine .kind_bind ?_
    rw [headKind_cons, hop]
    refine .ite_neg (Nat.not_lt.2 hpos) ?_
    refine .advance_bind (Token.live_of_isPlain ht) ?_
    exact .bind (hr.binary (by omega) _) (.pure k _ after)
  have hbinary : Reads k (grammar.binary 1)
      (group left.tokens ++ t :: (group right.tokens ++ after)) (op.apply left right) after := by
    refine .unfold (·.binary 1) (.bind (hl.exponent (by omega)) (.chain_link hlink ?_ ?_))
    · simp only [List.length_cons, List.length_append]
      omega
    · exact .chain_stop (.infixLink_stop (by omega) k 1 _)
  exact ((hbinary.conditional (by omega)).assignment nofun (by omega)).sequence (by omega)

theorem readBack_exponent (hl : left.Recovers k) (hr : right.Recovers k) :
    (Expr.binary .exponent left right).ReadBack (k + 2) := by
  intro after hafter
  have hrank := hafter.bindingRank
  show Reads (k + 2) _ (group left.tokens ++ mark .starStar :: group right.tokens ++ after) _ _
  rw [List.append_assoc, List.cons_append]
  have hunary : Reads (k + 1) grammar.unary
      (group left.tokens ++ mark .starStar :: (group right.tokens ++ after)) left
      (mark .starStar :: (group right.tokens ++ after)) := by
    refine (hl.unary ?_).mono (Nat.le_succ k)
    show bindingRank (.punct .starStar) < 6
    decide
  have hexponent : Reads (k + 1) grammar.exponent
      (group left.tokens ++ mark .starStar :: (group right.tokens ++ after))
      (.binary .exponent left right) after := by
    refine .unfold (·.exponent) (.bind hunary (.accept_yes rfl ?_))
    exact .bind (.nested nofun (hr.exponent (by omega))) (.pure _ _ after)
  exact (((hexponent.binary (by omega) 1).conditional (by omega)).assignment nofun
    (by omega)).sequence (by omega)

theorem readBack_binary (op : BinaryOperator) (hl : left.Recovers k) (hr : right.Recovers k) :
    (Expr.binary op left right).ReadBack (k + 2) := by
  -- `**` is no link of the chain: a rule of its own reads it
  by_cases hexp : op = .exponent
  · subst hexp
    exact readBack_exponent hl hr
  · obtain ⟨precedence, hop, hpos⟩ := op.infixOperator hexp
    intro after hafter
    exact (reads_infixOperator op.isPlain hop hpos hl hr hafter).mono (Nat.le_succ _)

theorem readBack_logical (op : LogicalOperator) (hl : left.Recovers k) (hr : right.Recovers k) :
    (Expr.logical op left right).ReadBack (k + 1) := by
  obtain ⟨precedence, hop, hpos⟩ := op.infixOperator
  intro after hafter
  exact reads_infixOperator op.isPlain hop hpos hl hr hafter

theorem readBack_unary (op : UnaryOperator) (h : e.Recovers k) :
    (Expr.unary op e).ReadBack (k + 2) := by
  refine readBack_of_unary (fun _ => Token.valid_of_isPlain op.isPlain) fun after hafter => ?_
  have hrank := hafter.bindingRank
  have hhead : headKind ((Expr.unary op e).tokens ++ after) = op.token.kind := rfl
  refine .unfold (·.unary) (.kind_bind ?_)
  rw [hhead, op.unaryOperator.1]
  exact .advance_bind (Token.live_of_isPlain op.isPlain)
    (.bind (.nested nofun (h.unary (by omega))) (.pure _ _ after))

theorem readBack_updateBefore (op : UpdateOperator) (h : e.Recovers k) :
    (Expr.update op .before e).ReadBack (k + 2) := by
  refine readBack_of_unary (fun _ => Token.valid_of_isPlain op.isPlain) fun after hafter => ?_
  have hrank := hafter.bindingRank
  have hhead : headKind ((Expr.update op .before e).tokens ++ after) =
      op.token.kind := rfl
  refine .unfold (·.unary) (.kind_bind ?_)
  rw [hhead, op.updateOperator.1, op.updateOperator.2]
  exact .advance_bind (Token.live_of_isPlain op.isPlain)
    (.bind (.nested nofun (h.unary (by omega))) (.pure _ _ after))

theorem readBack_updateAfter (op : UpdateOperator) (h : e.Recovers k) :
    (Expr.update op .after e).ReadBack (k + 1) := by
  refine readBack_of_unary (fun _ => by rintro _ ⟨⟩) fun after hafter => ?_
  show Reads k _ (group e.tokens ++ [op.token] ++ after) _ _
  rw [List.append_assoc, List.singleton_append]
  have hoperand : Reads k grammar.operand (group e.tokens ++ op.token :: after) e
      (op.token :: after) := by
    refine h.operand ?_
    rw [headKind_cons]
    cases op <;> decide
  refine .unfold (·.unary) (.kind_bind (.bind hoperand (.ahead_bind ?_)))
  have hahead : Stream.ahead ⟨op.token :: after, 0⟩ 0 = op.token := rfl
  simp only [hahead, op.updateOperator.2]
  -- an operator on the next line would belong to what follows
  have hline : op.token.newlineBefore = false := by cases op <;> rfl
  refine .ite_neg (Bool.eq_false_iff.1 hline) ?_
  exact .advance_bind (Token.live_of_isPlain op.isPlain) (.pure k _ after)

theorem readBack_update (op : UpdateOperator) (place : UpdatePlace) (h : e.Recovers k) :
    (Expr.update op place e).ReadBack (k + 2) := by
  cases place with
  | before => exact readBack_updateBefore op h
  | after => exact fun after hafter => (readBack_updateAfter op h after hafter).mono (Nat.le_succ _)

theorem readBack_conditional {test consequent alternate : Expr} (ht : test.Recovers k)
    (hc : consequent.Recovers k) (ha : alternate.Recovers k) :
    (Expr.conditional test consequent alternate).ReadBack (k + 2) := by
  intro after hafter
  have hrank := hafter.bindingRank
  simp only [Expr.tokens, List.append_assoc, List.cons_append]
  have htest : ∀ rest, Reads (k + 1) (grammar.binary 1)
      (group test.tokens ++ mark .question :: rest) test (mark .question :: rest) := by
    intro rest
    refine (ht.binary ?_ 1).mono (Nat.le_succ k)
    exact Nat.lt_succ_self 3
  have hconditional : Reads (k + 1) grammar.conditional (group test.tokens ++ mark .question ::
      (group consequent.tokens ++ mark .colon :: (group alternate.tokens ++ after)))
      (.conditional test consequent alternate) after := by
    refine .unfold (·.conditional) (.bind (htest _) (.accept_yes rfl ?_))
    refine .bind (hc.assignment Nat.zero_lt_two) (.expect_bind rfl ?_)
    exact .bind (ha.assignment (by omega)) (.pure _ _ after)
  exact (hconditional.assignment (by rintro _ ⟨⟩) (by omega)).sequence (by omega)

theorem readBack_assign (op : AssignOperator) {target value : Expr} (ht : target.Recovers k)
    (hv : value.Recovers k) : (Expr.assign op target value).ReadBack (k + 2) := by
  intro after hafter
  have hrank := hafter.bindingRank
  simp only [Expr.tokens, List.append_assoc, List.cons_append]
  have htarget : ∀ rest, Reads (k + 1) grammar.conditional
      (group target.tokens ++ Token.bare (.assign op) :: rest) target
      (Token.bare (.assign op) :: rest) := by
    intro rest
    refine (ht.conditional ?_).mono (Nat.le_succ k)
    exact Nat.lt_succ_self 2
  have hassignment : Reads (k + 2) grammar.assignment (group target.tokens ++
      Token.bare (.assign op) :: (group value.tokens ++ after)) (.assign op target value)
      after := by
    refine .unfold (·.assignment) (.nested (by rintro _ ⟨⟩) ?_)
    refine .bind (htarget _) (.kind_bind ?_)
    exact .advance_bind rfl (.bind (hv.assignment (by omega)) (.pure _ _ after))
  exact hassignment.sequence (by omega)

end TemplateVars
