/-
Chains of names and infix operators.

A chain is read as the tree in which precedence has put the brackets: `Expr.Grouped` says at
every node which operators may stand at the top of its operands.

* `Expr.Grouped.reads_binary` — a grouped tree is read from the names and operators that it
  has from left to right, by the rule for the operators that it has at its top;
* `exists_grouped` — every chain has a grouped tree;
* `complete_chain` — so a chain of any length is read as its grouped tree, which is the only
  one, unless it has a run of `**` that opens too many levels.

Design notes: a left operand is read before the operator behind it is seen, so reading is
stated with what the loop for operators does next: it goes on from the tree read so far.
A run of `**` is a recursion and not a loop; each operator in it opens a level.
-/
import Mathlib.Data.List.Induction
import TemplateVars.Proofs.Grammar.Derivation
import TemplateVars.Proofs.Grammar.ReadBack.Operators

namespace TemplateVars

open Grammar (grammar)

/-- Whether a token stands between two operands. -/
def TokenKind.IsInfix (k : TokenKind) : Prop :=
  k.infixOperator?.isSome ∨ k = .punct .starStar

instance (k : TokenKind) : Decidable k.IsInfix := inferInstanceAs (Decidable (_ ∨ _))

/-- The kinds of the tokens of a chain: a name, and more names with an operator in front of
each. -/
def chainKinds (first : String) (links : List (TokenKind × String)) : List TokenKind :=
  .identifier first :: links.flatMap fun link => [link.1, .identifier link.2]

namespace InfixOperator

def token : InfixOperator → Token
  | binary op => op.token
  | logical op => op.token

/-- How tightly an operator binds, `**` tightest of all. -/
def precedence (op : InfixOperator) : Nat :=
  match op.token.kind.infixOperator? with
  | some (p, _) => p
  | none => TokenKind.maxPrecedence + 1

theorem precedence_exponent : (binary .exponent).precedence = TokenKind.maxPrecedence + 1 := rfl

theorem infixOperator_token {op : InfixOperator} (h : op ≠ binary .exponent) :
    op.token.kind.infixOperator? = some (op.precedence, op) := by
  obtain ⟨p, hp, -⟩ : ∃ p, op.token.kind.infixOperator? = some (p, op) ∧ 1 ≤ p := by
    cases op with
    | binary op => exact op.infixOperator fun hop => h (congrArg binary hop)
    | logical op => exact op.infixOperator
  rw [precedence, hp]

theorem precedence_bounds {op : InfixOperator} (h : op ≠ binary .exponent) :
    1 ≤ op.precedence ∧ op.precedence ≤ TokenKind.maxPrecedence :=
  TokenKind.precedence_bounds (infixOperator_token h)

end InfixOperator

theorem TokenKind.IsInfix.token {k : TokenKind} (h : k.IsInfix) :
    ∃ op : InfixOperator, k = op.token.kind := by
  rcases h with h | rfl
  · obtain ⟨⟨p, op⟩, hk⟩ := Option.isSome_iff_exists.1 h
    refine ⟨op, ?_⟩
    unfold infixOperator? at hk
    split at hk
    all_goals first
      | cases hk; rfl
      | exact nomatch hk
  · exact ⟨.binary .exponent, rfl⟩

namespace Expr

/-- The tokens of a tree of names and operators, from left to right. -/
def inOrder : Expr → List TokenKind
  | identifier name => [.identifier name]
  | binary op left right => left.inOrder ++ op.token.kind :: right.inOrder
  | logical op left right => left.inOrder ++ op.token.kind :: right.inOrder
  | _ => []

/-- How tightly the operator at the top of a tree binds; names bind tighter than any. -/
def topPrecedence : Expr → Nat
  | binary op _ _ => (InfixOperator.binary op).precedence
  | logical op _ _ => (InfixOperator.logical op).precedence
  | _ => TokenKind.maxPrecedence + 2

/-- Whether a tree is a name or has `**` at its top. -/
def IsPower : Expr → Prop
  | identifier _ => True
  | binary .exponent _ _ => True
  | _ => False

/-- Whether each operator of a tree of names and operators has the operands that precedence
gives it. -/
inductive Grouped : Expr → Prop
  | name (name : String) : Grouped (.identifier name)
  | between {op : InfixOperator} {left right : Expr} (hop : op ≠ .binary .exponent)
      (hl : Grouped left) (hr : Grouped right) (atLeast : op.precedence ≤ left.topPrecedence)
      (above : op.precedence < right.topPrecedence) : Grouped (op.apply left right)
  | exponent (base : String) {right : Expr} (hr : Grouped right) (power : right.IsPower) :
      Grouped (.binary .exponent (.identifier base) right)

/-- The levels that the longest run of `**` opens. -/
def powerLevels : Expr → Nat
  | binary .exponent left right => max left.powerLevels (right.powerLevels + 1)
  | binary _ left right => max left.powerLevels right.powerLevels
  | logical _ left right => max left.powerLevels right.powerLevels
  | _ => 0

variable {op : InfixOperator} {left right e : Expr}

@[simp] theorem inOrder_apply :
    (op.apply left right).inOrder = left.inOrder ++ op.token.kind :: right.inOrder := by
  cases op <;> rfl

@[simp] theorem topPrecedence_apply : (op.apply left right).topPrecedence = op.precedence := by
  cases op <;> rfl

theorem powerLevels_apply (h : op ≠ .binary .exponent) :
    (op.apply left right).powerLevels = max left.powerLevels right.powerLevels := by
  cases op with
  | logical op => rfl
  | binary op =>
    cases op
    case exponent => exact absurd rfl h
    all_goals rfl

@[simp] theorem powerLevels_exponent (base : String) :
    (binary .exponent (.identifier base) right).powerLevels = right.powerLevels + 1 :=
  Nat.zero_max _

theorem inOrder_exponent (base : String) :
    (binary .exponent (.identifier base) right).inOrder =
      .identifier base :: .punct .starStar :: right.inOrder := rfl

theorem IsPower.topPrecedence (h : e.IsPower) : TokenKind.maxPrecedence < e.topPrecedence := by
  unfold IsPower at h
  split at h
  · exact Nat.lt_succ_of_le (Nat.le_succ _)
  · exact Nat.lt_succ_self _
  · exact h.elim

theorem IsPower.of_apply (h : (op.apply left right).IsPower) : op = .binary .exponent := by
  by_contra hop
  have htop := h.topPrecedence
  rw [topPrecedence_apply] at htop
  exact absurd (InfixOperator.precedence_bounds hop).2 (Nat.not_le.2 htop)

theorem Grouped.topPrecedence_pos (h : e.Grouped) : 1 ≤ e.topPrecedence := by
  cases h with
  | name => exact Nat.le_add_left 1 _
  | between hop =>
    rw [topPrecedence_apply]
    exact (InfixOperator.precedence_bounds hop).1
  | exponent => exact Nat.le_add_left 1 _

theorem Grouped.isPower (h : e.Grouped) (htop : TokenKind.maxPrecedence < e.topPrecedence) :
    e.IsPower := by
  cases h with
  | name => trivial
  | between hop =>
    rw [topPrecedence_apply] at htop
    exact absurd (InfixOperator.precedence_bounds hop).2 (Nat.not_le.2 htop)
  | exponent => trivial

end Expr

/-! ### Reading -/

/-- Whether the tokens end or go on with an operator that binds no tighter than `p`. -/
def LooseEnd (p : Nat) : List Token → Prop
  | [] => False
  | next :: _ => next.kind = .eof ∨
      ∃ q op, next.kind.infixOperator? = some (q, op) ∧ q ≤ p

namespace LooseEnd

variable {p q m : Nat} {after : List Token}

theorem mono (h : LooseEnd p after) (hpq : p ≤ q) : LooseEnd q after := by
  cases after with
  | nil => exact h.elim
  | cons next rest =>
    rcases h with h | ⟨r, op, hop, hr⟩
    · exact .inl h
    · exact .inr ⟨r, op, hop, Nat.le_trans hr hpq⟩

theorem bindingRank (h : LooseEnd p after) : bindingRank (headKind after) < 5 := by
  cases after with
  | nil => exact h.elim
  | cons next rest =>
    rw [headKind_cons]
    rcases h with h | ⟨r, op, hop, -⟩
    · rw [h]
      decide
    · rw [bindingRank_of_infixOperator hop]
      exact Nat.lt_succ_self 4

theorem standsAlone (h : LooseEnd p after) (name : String) : StandsAlone name after := by
  cases after with
  | nil => exact h.elim
  | cons next rest =>
    have hne : ∀ k : TokenKind, k.infixOperator? = none → k ≠ .eof → next.kind ≠ k := by
      rintro k hk heof rfl
      rcases h with h | ⟨r, op, hop, -⟩
      · exact heof h
      · exact nomatch hk.symm.trans hop
    exact ⟨hne _ rfl nofun, fun _ => ⟨hne _ rfl nofun, hne _ rfl nofun, fun _ => hne _ rfl nofun⟩⟩

/-- The loop for operators ends in front of one that binds too loosely for it. -/
theorem chain (h : LooseEnd p after) (hp : p < m) (k : Nat) (e : Expr) :
    Reads k (Parse.chain (Rule.infixLink grammar m) e) after e after := by
  refine .chain_stop (.kind_bind ?_)
  cases after with
  | nil => exact h.elim
  | cons next rest =>
    rw [headKind_cons]
    rcases h with h | ⟨q, op, hop, hq⟩
    · rw [h]
      exact .pure k none _
    · rw [hop]
      exact .ite_pos (by omega) (.pure k none _)

end LooseEnd

namespace Expr

variable {e : Expr}

/-- A name is read as a unary expression if it stands alone. -/
theorem reads_nameOperand {t : Token} {name : String} {after : List Token}
    (ht : t.kind = .identifier name) (hafter : StandsAlone name after)
    (hrank : bindingRank (headKind after) < 6) (k : Nat) :
    Reads k grammar.unary (t :: after) (.identifier name) after := by
  have hstart : StartsPrimary (headKind (t :: after)) := by
    rw [headKind_cons, ht]
    exact startsPrimary_identifier name
  exact ((reads_aloneName ht hafter k).operand hstart.not_new (by omega)).unary
    hstart.toStartsOperand hrank

/-- The first token of a grouped tree is a name. -/
theorem Grouped.headKind {us : List Token} (h : e.Grouped) (hus : kinds us = e.inOrder)
    (after : List Token) : ∃ name, headKind (us ++ after) = .identifier name := by
  induction h generalizing us after with
  | name name =>
    obtain ⟨t, rfl, ht⟩ := List.map_eq_singleton_iff.1 hus
    exact ⟨name, ht⟩
  | between _ _ _ _ _ ihl _ =>
    rw [inOrder_apply] at hus
    obtain ⟨ls, rs, rfl, hls, -⟩ := List.map_eq_append_iff.1 hus
    rw [List.append_assoc]
    exact ihl hls _
  | exponent base =>
    obtain ⟨t, us, rfl, ht, -⟩ := List.map_eq_cons_iff.1 hus
    exact ⟨base, ht⟩

/-- A run of `**` is read by the rule for it, a level deeper for each. -/
theorem Grouped.reads_exponent {p : Nat} {us after : List Token} (h : e.Grouped)
    (hpower : e.IsPower) (hus : kinds us = e.inOrder) (hafter : LooseEnd p after) :
    Reads e.powerLevels grammar.exponent (us ++ after) e after := by
  induction h generalizing us with
  | name name =>
    obtain ⟨t, rfl, ht⟩ := List.map_eq_singleton_iff.1 hus
    have hrank := hafter.bindingRank
    exact (reads_nameOperand ht (hafter.standsAlone name) (by omega) 0).exponent hrank
  | between hop => exact absurd hpower.of_apply hop
  | @exponent base right hr power ih =>
    rw [inOrder_exponent] at hus
    obtain ⟨t, us, rfl, ht, hus⟩ := List.map_eq_cons_iff.1 hus
    obtain ⟨star, us, rfl, hstar, hus⟩ := List.map_eq_cons_iff.1 hus
    have hbase : Reads (right.powerLevels + 1) grammar.unary (t :: star :: (us ++ after))
        (.identifier base) (star :: (us ++ after)) := by
      refine reads_nameOperand ht ?_ ?_ _
      · rw [StandsAlone, hstar]
        exact ⟨nofun, fun _ => ⟨nofun, nofun, nofun⟩⟩
      · rw [headKind_cons, hstar]
        decide
    have hvalid : ∀ error, TemplateVars.headKind (us ++ after) ≠ .invalid error := by
      obtain ⟨name, hname⟩ := hr.headKind hus after
      rw [hname]
      exact nofun
    rw [powerLevels_exponent]
    refine .unfold (·.exponent) (.bind hbase (.accept_yes hstar ?_))
    exact .bind (.nested hvalid (ih power hus)) (.pure _ _ after)

/-- A grouped tree is read by the rule for operators of at most the precedence that it has at
its top, which goes on with the operators behind it. -/
theorem Grouped.reads_binary {m k : Nat} {us after rest : List Token} {e' : Expr}
    (h : e.Grouped) (hm : m ≤ e.topPrecedence) (hk : e.powerLevels ≤ k)
    (hus : kinds us = e.inOrder) (hafter : LooseEnd e.topPrecedence after)
    (hrest : Reads k (Parse.chain (Rule.infixLink grammar m) e) after e' rest) :
    Reads k (grammar.binary m) (us ++ after) e' rest := by
  induction h generalizing m us after rest e' with
  | name name =>
    have hname := (Grouped.name name).reads_exponent trivial hus hafter
    exact .unfold (·.binary m) (.bind (hname.mono hk) hrest)
  | exponent base hr power =>
    have hpower := (Grouped.exponent base hr power).reads_exponent trivial hus hafter
    exact .unfold (·.binary m) (.bind (hpower.mono hk) hrest)
  | @between op left right hop hl hr atLeast above ihl ihr =>
    rw [topPrecedence_apply] at hm hafter
    rw [powerLevels_apply hop] at hk
    rw [inOrder_apply] at hus
    obtain ⟨ls, us, rfl, hls, hus⟩ := List.map_eq_append_iff.1 hus
    obtain ⟨t, rs, rfl, ht, hrs⟩ := List.map_eq_cons_iff.1 hus
    have htoken : t.kind.infixOperator? = some (op.precedence, op) := by
      rw [ht]
      exact InfixOperator.infixOperator_token hop
    -- the right operand ends where an operator does not bind tighter than this one
    have hright : Reads k (grammar.binary (op.precedence + 1)) (rs ++ after) right after :=
      ihr above (by omega) hrs (hafter.mono (Nat.le_of_lt above))
        (hafter.chain (Nat.lt_succ_self _) k right)
    have hlink : Reads k (Rule.infixLink grammar m left) (t :: (rs ++ after))
        (some (op.apply left right)) after := by
      refine .kind_bind ?_
      rw [headKind_cons, htoken]
      refine .ite_neg (Nat.not_lt.2 hm) ?_
      exact .advance_bind (TokenKind.live_of_infix htoken) (.bind hright (.pure k _ after))
    have hshorter : after.length < (t :: (rs ++ after)).length := by
      simp only [List.length_cons, List.length_append]
      omega
    rw [List.append_assoc, List.cons_append]
    refine ihl (Nat.le_trans hm atLeast) (by omega) hls ?_ (.chain_link hlink hshorter hrest)
    exact .inr ⟨op.precedence, op, htoken, atLeast⟩

end Expr

/-! ### Existence -/

namespace Expr.Grouped

variable {e : Expr}

/-- An operator that binds no tighter than a tree takes it for its left operand. -/
theorem join (h : e.Grouped) {op : InfixOperator} (hop : op ≠ .binary .exponent)
    (hle : op.precedence ≤ e.topPrecedence) (name : String) :
    (op.apply e (.identifier name)).Grouped := by
  refine .between hop h (.name name) hle ?_
  have hmax := (InfixOperator.precedence_bounds hop).2
  show op.precedence < TokenKind.maxPrecedence + 2
  omega

/-- A tree takes up an operator and a name at its right end. -/
theorem extend (h : e.Grouped) (op : InfixOperator) (name : String) :
    ∃ e' : Expr, e'.Grouped ∧ e'.inOrder = e.inOrder ++ [op.token.kind, .identifier name] ∧
      min op.precedence e.topPrecedence ≤ e'.topPrecedence := by
  -- an operator that goes to the top, as the last one of those that bind as tight
  have top : ∀ {e : Expr}, e.Grouped → op ≠ .binary .exponent →
      op.precedence ≤ e.topPrecedence → ∃ e' : Expr, e'.Grouped ∧
        e'.inOrder = e.inOrder ++ [op.token.kind, .identifier name] ∧
        min op.precedence e.topPrecedence ≤ e'.topPrecedence := by
    intro e he hop hle
    refine ⟨op.apply e (.identifier name), he.join hop hle name, inOrder_apply, ?_⟩
    rw [topPrecedence_apply]
    exact Nat.min_le_left _ _
  induction h with
  | name first =>
    by_cases hop : op = .binary .exponent
    · subst hop
      exact ⟨_, .exponent first (.name name) trivial, rfl, Nat.min_le_left _ _⟩
    · refine top (.name first) hop ?_
      exact Nat.le_trans (InfixOperator.precedence_bounds hop).2 (Nat.le_add_right _ 2)
  | @between op' left right hop' hl hr atLeast above _ ihr =>
    have hmax := (InfixOperator.precedence_bounds hop').2
    by_cases hle : op.precedence ≤ op'.precedence
    · have hop : op ≠ .binary .exponent := by
        rintro rfl
        rw [InfixOperator.precedence_exponent] at hle
        omega
      refine top (.between hop' hl hr atLeast above) hop ?_
      rwa [topPrecedence_apply]
    · obtain ⟨right', hr', hright', htop⟩ := ihr
      refine ⟨op'.apply left right', .between hop' hl hr' atLeast (by omega), ?_, ?_⟩
      · simp only [inOrder_apply, hright', List.append_assoc, List.cons_append]
      · rw [topPrecedence_apply, topPrecedence_apply]
        exact Nat.min_le_right _ _
  | @exponent base right hr power ih =>
    by_cases hop : op = .binary .exponent
    · subst hop
      obtain ⟨right', hr', hright', htop⟩ := ih
      have hpower := power.topPrecedence
      rw [InfixOperator.precedence_exponent] at htop
      refine ⟨_, .exponent base hr' (hr'.isPower (by omega)), ?_, Nat.min_le_left _ _⟩
      rw [inOrder_exponent, hright']
      rfl
    · refine top (.exponent base hr power) hop ?_
      exact Nat.le_trans (InfixOperator.precedence_bounds hop).2 (Nat.le_succ _)

end Expr.Grouped

/-- Every chain is what some grouped tree has from left to right. -/
theorem exists_grouped (first : String) (links : List (TokenKind × String))
    (hlinks : ∀ link ∈ links, link.1.IsInfix) :
    ∃ e : Expr, e.Grouped ∧ e.inOrder = chainKinds first links := by
  induction links using List.reverseRecOn with
  | nil => exact ⟨.identifier first, .name first, rfl⟩
  | append_singleton links link ih =>
    obtain ⟨e, he, horder⟩ := ih fun l hl => hlinks l (List.mem_append_left _ hl)
    obtain ⟨op, hop⟩ := (hlinks link (List.mem_append_right _ List.mem_cons_self)).token
    obtain ⟨e', he', horder', -⟩ := he.extend op link.2
    refine ⟨e', he', ?_⟩
    rw [horder', horder, ← hop]
    simp only [chainKinds, List.flatMap_append, List.flatMap_singleton, List.cons_append]

/-! ### Runs of `**` -/

def TokenKind.isName : TokenKind → Bool
  | identifier _ => true
  | _ => false

/-- The tokens of a chain without the names. -/
def infixes (ks : List TokenKind) : List TokenKind := ks.filter (!·.isName)

theorem InfixOperator.isName_token (op : InfixOperator) : op.token.kind.isName = false := by
  cases op with
  | binary op => cases op <;> rfl
  | logical op => cases op <;> rfl

theorem infixes_chainKinds (first : String) (links : List (TokenKind × String))
    (hlinks : ∀ link ∈ links, link.1.IsInfix) :
    infixes (chainKinds first links) = links.map (·.1) := by
  show infixes (links.flatMap _) = _
  induction links with
  | nil => rfl
  | cons link links ih =>
    obtain ⟨hlink, hlinks⟩ := List.forall_mem_cons.1 hlinks
    obtain ⟨op, hop⟩ := hlink.token
    have hname : link.1.isName = false := by rw [hop, op.isName_token]
    simp only [infixes, List.flatMap_cons, List.filter_append] at ih ⊢
    rw [ih hlinks, List.filter_cons_of_pos (by rw [hname]; rfl)]
    rfl

namespace Expr

variable {e : Expr}

theorem infixes_apply (op : InfixOperator) (left right : Expr) :
    infixes (op.apply left right).inOrder =
      infixes left.inOrder ++ op.token.kind :: infixes right.inOrder := by
  rw [inOrder_apply, infixes, List.filter_append, List.filter_cons, op.isName_token]
  rfl

/-- A tree of nothing but `**` opens a level for each. -/
theorem Grouped.infixes_power (h : e.Grouped) (hpower : e.IsPower) :
    infixes e.inOrder = List.replicate e.powerLevels (.punct .starStar) := by
  induction h with
  | name => rfl
  | between hop => exact absurd hpower.of_apply hop
  | @exponent base right hr power ih =>
    rw [powerLevels_exponent, List.replicate_succ, ← ih power]
    rfl

/-- The levels that a tree opens are those of a run of `**` in it. -/
theorem Grouped.exists_run (h : e.Grouped) :
    List.replicate e.powerLevels (.punct .starStar) <:+: infixes e.inOrder := by
  induction h with
  | name => exact List.infix_rfl
  | exponent base hr power =>
    have hrun := (Grouped.exponent base hr power).infixes_power trivial
    exact hrun ▸ List.infix_rfl
  | @between op left right hop _ _ _ _ ihl ihr =>
    rw [powerLevels_apply hop, infixes_apply]
    rcases Nat.le_total left.powerLevels right.powerLevels with hle | hle
    · rw [Nat.max_eq_right hle]
      exact ihr.trans ((List.suffix_cons _ _).trans (List.suffix_append _ _)).isInfix
    · rw [Nat.max_eq_left hle]
      exact ihl.trans (List.prefix_append _ _).isInfix

/-- A grouped tree that opens few enough levels is read from its tokens. -/
theorem Grouped.complete {us : List Token} {last : Token} (h : e.Grouped)
    (hlevels : e.powerLevels ≤ 127) (hus : kinds us = e.inOrder) (hlast : last.kind = .eof) :
    Parse.complete.run { rest := us ++ [last] } = (.ok e, { rest := [last] }) := by
  have hend : LooseEnd 0 [last] := .inl hlast
  have hrank : bindingRank (TemplateVars.headKind [last]) = 0 := by
    rw [headKind_cons, hlast]
    rfl
  have hvalid : ∀ error, TemplateVars.headKind (us ++ [last]) ≠ .invalid error := by
    obtain ⟨name, hname⟩ := h.headKind hus [last]
    rw [hname]
    exact nofun
  have hbinary : Reads 127 (grammar.binary 1) (us ++ [last]) e [last] :=
    h.reads_binary h.topPrecedence_pos hlevels hus (hend.mono (Nat.zero_le _))
      (hend.chain Nat.zero_lt_one 127 e)
  have hsequence : Reads 128 grammar.sequence (us ++ [last]) e [last] :=
    ((hbinary.conditional (by omega)).assignment hvalid (by omega)).sequence (by omega)
  exact hsequence.complete_run hlast

end Expr

/-- A chain of names and infix operators is read, however long it is, unless more than 127
`**` come in a row.  What is read has the names and operators of the chain from left to right,
and at every operator the operands that precedence gives it; it is the only tree of that
kind. -/
theorem complete_chain (first : String) (links : List (TokenKind × String))
    (hlinks : ∀ link ∈ links, link.1.IsInfix)
    (hruns : ∀ n, List.replicate n (.punct .starStar) <:+: links.map (·.1) → n ≤ 127)
    {us : List Token} {last : Token} (hus : kinds us = chainKinds first links)
    (hlast : last.kind = .eof) :
    ∃ e : Expr, Parse.complete.run { rest := us ++ [last] } = (.ok e, { rest := [last] }) ∧
      e.inOrder = chainKinds first links ∧ e.Grouped ∧
      ∀ e' : Expr, e'.Grouped → e'.inOrder = chainKinds first links → e' = e := by
  have reads : ∀ e : Expr, e.Grouped → e.inOrder = chainKinds first links →
      Parse.complete.run { rest := us ++ [last] } = (.ok e, { rest := [last] }) := by
    intro e he horder
    refine he.complete (hruns _ ?_) (hus.trans horder.symm) hlast
    rw [← infixes_chainKinds first links hlinks, ← horder]
    exact he.exists_run
  obtain ⟨e, he, horder⟩ := exists_grouped first links hlinks
  refine ⟨e, reads e he horder, horder, he, fun e' he' horder' => ?_⟩
  -- one run has one result
  have hsame := (reads e' he' horder').symm.trans (reads e he horder)
  exact Except.ok.inj (Prod.mk.inj hsame).1

/-- Operators of three kinds and a run of `**`, of which one operand is named `async`. -/
theorem complete_chain_mixed :
    let links : List (TokenKind × String) := [(.punct .minus, "async"), (.punct .starStar, "x"),
      (.punct .starStar, "y"), (.punct .star, "z"), (.punct .pipePipe, "w")]
    let us := (chainKinds "v" links).map Token.bare
    (∀ link ∈ links, link.1.IsInfix) ∧
    (∀ n, List.replicate n (.punct .starStar) <:+: links.map (·.1) → n ≤ 127) ∧
    kinds us = chainKinds "v" links ∧
    ∃ e : Expr, Parse.complete.run { rest := us ++ [.bare .eof] } =
        (.ok e, { rest := [.bare .eof] }) ∧
      e.inOrder = chainKinds "v" links ∧ e.Grouped ∧
      ∀ e' : Expr, e'.Grouped → e'.inOrder = chainKinds "v" links → e' = e := by
  intro links us
  have hlinks : ∀ link ∈ links, link.1.IsInfix := by decide
  have hruns : ∀ n, List.replicate n (.punct .starStar) <:+: links.map (·.1) → n ≤ 127 := by
    intro n hn
    have hlength := hn.length_le
    rw [List.length_replicate] at hlength
    exact Nat.le_trans hlength (by decide)
  exact ⟨hlinks, hruns, rfl, complete_chain "v" links hlinks hruns rfl rfl⟩

end TemplateVars
