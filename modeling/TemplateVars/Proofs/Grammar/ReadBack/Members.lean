/-
Members, calls, templates and array literals are read back.

* `Reads.collect_listed` — items between commas are read one by one;
* `Expr.RecoversArgument` — whether an argument or element is read;
* `readBack_call` and the like — what is made of groups and arguments is read
  back.

Design notes: a list is read by rounds that find the closing bracket or an item,
so each item has to start with a token that closes nothing.
-/
import TemplateVars.Proofs.Grammar.Derivation
import TemplateVars.Proofs.Grammar.ReadBack.Operators

namespace TemplateVars

open Grammar (grammar)
open Spelling

/-! ### Lists -/

/-- Items between commas up to a closing token are read by rounds that read one
item each. -/
theorem Reads.collect_listed {α : Type} {k : Nat} {round : Parse (Parse.Item α)}
    {spell : α → List Token} {closing : Token} {as : List α}
    (hmore : ∀ a ∈ as.dropLast, ∀ rest,
      Reads k round (spell a ++ mark .comma :: rest) (.more a) rest)
    (hlast : ∀ a ∈ as, ∀ rest,
      Reads k round (spell a ++ closing :: rest) (.last a) (closing :: rest))
    (hstop : ∀ rest, Reads k round (closing :: rest) .stop (closing :: rest))
    (after : List Token) :
    Reads k (Parse.collect round) (listed (as.map fun a => some (spell a)) ++ closing :: after) as
      (closing :: after) := by
  -- on the items: the comma behind one belongs to its round, so two are needed
  -- to see whether there is a comma
  induction as with
  | nil => exact collect_stop (hstop after)
  | cons a as ih =>
    cases as with
    | nil => exact collect_last (hlast a List.mem_cons_self after)
    | cons b bs =>
      have hrest := ih (fun x hx => hmore x (List.mem_cons_of_mem a hx))
        fun x hx => hlast x (List.mem_cons_of_mem a hx)
      simp only [List.map_cons, listed, List.append_assoc, List.cons_append] at hrest ⊢
      refine collect_more (hmore a List.mem_cons_self _) ?_ hrest
      simp only [List.length_append, List.length_cons]
      omega

/-- Elements between commas up to the closing bracket are read by rounds that
read one element or hole each. -/
theorem Reads.collect_elements {α : Type} {k : Nat} {round : Parse (Parse.Item (Option α))}
    {spell : α → List Token} {as : List (Option α)}
    (hhole : ∀ rest, Reads k round (mark .comma :: rest) (.more none) rest)
    (hmore : ∀ a, some a ∈ as.dropLast → ∀ rest,
      Reads k round (spell a ++ mark .comma :: rest) (.more (some a)) rest)
    (hlast : ∀ a, some a ∈ as → ∀ rest,
      Reads k (Parse.collect round) (spell a ++ mark .rightBracket :: rest) [some a] rest)
    (hstop : ∀ rest, Reads k round (mark .rightBracket :: rest) .stop rest)
    (after : List Token) :
    Reads k (Parse.collect round)
      (listed (as.map fun a => a.map spell) ++ mark .rightBracket :: after) as after := by
  induction as with
  | nil => exact collect_stop (hstop after)
  | cons a as ih =>
    have hrest : Reads k (Parse.collect round)
        (listed (as.map fun a => a.map spell) ++ mark .rightBracket :: after) as after := by
      refine ih (fun x hx => hmore x ?_) fun x hx => hlast x (List.mem_cons_of_mem a hx)
      cases as with
      | nil => exact absurd hx List.not_mem_nil
      | cons b bs => exact List.mem_cons_of_mem a hx
    cases a with
    | none =>
      -- a hole has its comma even at the end
      exact collect_more (hhole _) (Nat.lt_succ_self _) hrest
    | some a =>
      cases as with
      | nil => exact hlast a List.mem_cons_self after
      | cons b bs =>
        simp only [List.map_cons, Option.map_some, listed, List.append_assoc,
          List.cons_append] at hrest ⊢
        refine collect_more (hmore a List.mem_cons_self _) ?_ hrest
        simp only [List.length_append, List.length_cons]
        omega

/-- Tokens in front of others make them more. -/
theorem length_lt_append {ts : List Token} (h : ts ≠ []) (after : List Token) :
    after.length < (ts ++ after).length := by
  rw [List.length_append]
  exact Nat.lt_add_of_pos_left (List.length_pos_iff.2 h)

/-! ### Arguments -/

/-- Whether an argument or element is read where the next one or the end
follows. -/
def Expr.RecoversArgument (k : Nat) (a : Expr) : Prop :=
  ∀ after, bindingRank (headKind after) < 2 →
    Reads k (Rule.spreadable grammar) (a.argumentTokens ++ after) a after

theorem argumentTokens_pos (a : Expr) : 0 < a.argumentTokens.length := by
  cases a <;> exact Nat.succ_pos _

theorem argument_head (a : Expr) (after : List Token) {m : Punctuator} (hparen : m ≠ .leftParen)
    (hdots : m ≠ .ellipsis) : headKind (a.argumentTokens ++ after) ≠ .punct m := by
  -- a group starts with its bracket and a spread with its dots
  have hhead : headKind (a.argumentTokens ++ after) = .punct .leftParen ∨
      headKind (a.argumentTokens ++ after) = .punct .ellipsis := by
    cases a <;> first | exact .inl rfl | exact .inr rfl
  intro heq
  rcases hhead with h | h
  · exact hparen (TokenKind.punct.inj (heq.symm.trans h))
  · exact hdots (TokenKind.punct.inj (heq.symm.trans h))

section

variable {k : Nat} {e : Expr}

theorem Expr.Recovers.argument (h : e.Recovers k) (hspread : e.isSpread = false) :
    e.RecoversArgument (k + 1) := by
  intro after hafter
  unfold Expr.argumentTokens
  rw [if_neg (by rw [hspread]; exact Bool.false_ne_true)]
  exact .accept_no nofun (h.assignment hafter)

theorem Expr.Recovers.spread (h : e.Recovers k) : (Expr.spread e).RecoversArgument (k + 1) :=
  fun after hafter => .accept_yes rfl (.bind (h.assignment hafter) (.pure _ _ after))

theorem reads_arguments {arguments : List Expr} (h : ∀ a ∈ arguments, a.RecoversArgument k)
    (after : List Token) :
    Reads k grammar.arguments (group (listed (tokensOfArguments arguments)) ++ after) arguments
      after := by
  rw [tokensOfArguments_eq, group_append]
  refine .unfold (·.arguments) (.advance_bind rfl (.bind (.collect_listed ?_ ?_ ?_ after) ?_))
  · intro a ha rest
    refine .check_no (argument_head a _ nofun nofun) ?_
    refine .bind (h a (List.dropLast_subset _ ha) _ (Nat.lt_succ_self 1)) ?_
    exact .accept_yes rfl (.pure k _ rest)
  · intro a ha rest
    refine .check_no (argument_head a _ nofun nofun) ?_
    exact .bind (h a ha _ Nat.zero_lt_two) (.accept_no nofun (.pure k _ _))
  · intro rest
    exact .check_yes rfl (.pure k _ _)
  · exact .expect_bind rfl (.pure k _ after)

theorem readBack_array {elements : List (Option Expr)}
    (h : ∀ e, some e ∈ elements → e.RecoversArgument k) :
    (Expr.array elements).ReadBack (k + 1) := by
  refine readBack_of_primary (fun _ => ?_) fun after _ => ?_
  · exact ⟨⟨rfl, rfl, by rintro _ ⟨⟩⟩, by rintro ⟨⟩⟩
  refine .unfold (·.primary) (.kind_bind ?_)
  show Reads k grammar.arrayLiteral _ _ _
  simp only [Expr.tokens, between, tokensOfElements_eq, List.cons_append, List.append_assoc,
    List.nil_append]
  refine .unfold (·.arrayLiteral) (.advance_bind rfl
    (.bind (.collect_elements ?_ ?_ ?_ ?_ after) (.pure k _ after)))
  · intro rest
    exact .accept_no (by rintro ⟨⟩) (.accept_yes rfl (.pure k _ rest))
  · intro a ha rest
    refine .accept_no (argument_head a _ (by decide) (by decide)) ?_
    refine .accept_no (argument_head a _ (by decide) (by decide)) ?_
    refine .bind (h a (List.dropLast_subset _ ha) _ (Nat.lt_succ_self 1)) ?_
    refine .check_no (by rintro ⟨⟩) ?_
    exact .expect_bind rfl (.pure k _ rest)
  · intro a ha rest
    -- behind the last element the bracket is left for the next round
    refine @Reads.collect_more _ _ _ (mark .rightBracket :: rest) _ _ _ _ ?_ ?_ ?_
    · refine .accept_no (argument_head a _ (by decide) (by decide)) ?_
      refine .accept_no (argument_head a _ (by decide) (by decide)) ?_
      refine .bind (h a ha _ Nat.zero_lt_two) (.check_yes rfl ?_)
      exact .pure k _ _
    · have := argumentTokens_pos a
      simp only [List.length_append, List.length_cons]
      omega
    · exact .collect_stop (.accept_yes rfl (.pure k _ rest))
  · intro rest
    exact .accept_yes rfl (.pure k _ rest)

/-! ### Members and calls -/

/-- A group with one link of a chain behind it is read as an expression. -/
theorem reads_suffix {base : Expr} {ts after : List Token} (hb : base.Recovers k)
    (hts : bindingRank (headKind ts) < 8)
    (hsuffix : Reads k (Rule.suffix grammar true base) ts (some e) after)
    (hlen : after.length < ts.length) (hafter : Closing after) :
    Reads (k + 1) grammar.sequence (group base.tokens ++ ts) e after := by
  have hrank := hafter.bindingRank
  have hoperand : Reads k grammar.operand (group base.tokens ++ ts) e after := by
    refine .unfold (·.operand) (.kind_bind (.ite_neg nofun ?_))
    refine .bind (hb.primary hts) (.unfold (fun r => r.suffixes true base) ?_)
    exact .chain_link hsuffix hlen (.chain_stop (.suffix_stop (by omega) k true e))
  exact (hoperand.unary startsPrimary_leftParen.toStartsOperand (by omega)).sequence_of_unary
    nofun hrank

theorem reads_memberName (k : Nat) {t : Token} {name : String} (ht : t.kind.NamesMember name)
    (after : List Token) : Reads k Rule.memberName (t :: after) name after := by
  refine .kind_bind ?_
  rw [headKind_cons]
  rcases ht with ht | ht
  · have hlive : t.kind.isTerminal = false := by rw [ht]; rfl
    rw [ht]
    exact .advance_bind hlive (.pure k name after)
  · have hlive := TokenKind.live_of_word ht
    split
    · next h => rw [h] at ht; exact nomatch ht
    · next word hword _ =>
      obtain rfl : name = word := Option.some.inj (ht.symm.trans hword)
      exact .advance_bind hlive (.pure k name after)
    · next hword _ => exact nomatch ht.symm.trans hword

theorem reads_computedMember {property : Expr} (hp : property.Recovers k) (after : List Token) :
    Reads (k + 1) (Rule.computedMember grammar)
      (between .leftBracket .rightBracket (group property.tokens) ++ after) (.computed property)
      after := by
  simp only [between, List.cons_append, List.append_assoc, List.nil_append]
  refine .advance_bind rfl (.bind (hp.sequence Nat.zero_lt_one) ?_)
  exact .expect_bind rfl (.pure _ _ after)

theorem readBack_member {base : Expr} (hb : base.Recovers (k + 1)) {property : Key}
    (hp : ∀ e, property = .computed e → e.Recovers k) (optional : Bool) :
    (Expr.member base property optional).ReadBack (k + 2) := by
  intro after hafter
  simp only [Expr.tokens, List.append_assoc]
  cases property with
  | fixed name =>
    cases optional with
    | false =>
      refine reads_suffix hb (Nat.lt_succ_self 7) (.kind_bind ?_) ?_ hafter
      · exact .advance_bind rfl (.bind (reads_memberName _ (.inl rfl) after) (.pure _ _ after))
      · exact length_lt_append (List.cons_ne_nil _ _) after
    | true =>
      refine reads_suffix hb (Nat.lt_succ_self 7) (.kind_bind ?_) ?_ hafter
      · refine .advance_bind rfl (.kind_bind ?_)
        exact .bind (reads_memberName _ (.inl rfl) after) (.pure _ _ after)
      · exact length_lt_append (List.cons_ne_nil _ _) after
  | computed e =>
    have hkey := reads_computedMember (hp e rfl) after
    cases optional with
    | false =>
      refine reads_suffix hb (Nat.lt_succ_self 7) (.kind_bind ?_) ?_ hafter
      · exact .bind hkey (.pure _ _ after)
      · exact length_lt_append (List.cons_ne_nil _ _) after
    | true =>
      refine reads_suffix hb (Nat.lt_succ_self 7) (.kind_bind ?_) ?_ hafter
      · exact .advance_bind rfl (.kind_bind (.bind hkey (.pure _ _ after)))
      · exact length_lt_append (List.cons_ne_nil _ _) after

theorem readBack_call {callee : Expr} {arguments : List Expr} (hc : callee.Recovers k)
    (ha : ∀ a ∈ arguments, a.RecoversArgument k) (optional : Bool) :
    (Expr.call callee arguments optional).ReadBack (k + 1) := by
  intro after hafter
  have hargs := reads_arguments ha after
  simp only [Expr.tokens, List.append_assoc]
  cases optional with
  | false =>
    refine reads_suffix hc (Nat.lt_succ_self 7) (.kind_bind ?_) ?_ hafter
    · exact .bind hargs (.pure k _ after)
    · exact length_lt_append (List.cons_ne_nil _ _) after
  | true =>
    refine reads_suffix hc (Nat.lt_succ_self 7) (.kind_bind ?_) ?_ hafter
    · exact .advance_bind rfl (.kind_bind (.bind hargs (.pure k _ after)))
    · exact length_lt_append (List.cons_ne_nil _ _) after

/-! ### Constructions -/

theorem startsOperand_new : StartsOperand (.keyword .new) := ⟨rfl, rfl, nofun⟩

/-- A construction is read as an expression. -/
theorem readBack_of_construction {ts : List Token}
    (htokens : e.tokens = .bare (.keyword .new) :: ts)
    (h : ∀ after, Closing after →
      Reads k grammar.construction (.bare (.keyword .new) :: (ts ++ after)) e after) :
    e.ReadBack (k + 1) := by
  intro after hafter
  have hrank := hafter.bindingRank
  have hoperand : Reads k grammar.operand (.bare (.keyword .new) :: (ts ++ after)) e after := by
    refine .unfold (·.operand) (.kind_bind (.ite_pos rfl ?_))
    refine .bind (h after hafter) (.unfold (fun r => r.suffixes true e) ?_)
    exact .chain_stop (.suffix_stop (by omega) k true e)
  rw [htokens, List.cons_append]
  exact (hoperand.unary startsOperand_new (by omega)).sequence_of_unary nofun hrank

theorem readBack_new {callee : Expr} {arguments : List Expr} (hc : callee.Recovers k)
    (ha : ∀ a ∈ arguments, a.RecoversArgument k) :
    (Expr.new callee arguments).ReadBack (k + 2) := by
  have htokens : (Expr.new callee arguments).tokens = .bare (.keyword .new) ::
      (group callee.tokens ++ group (listed (tokensOfArguments arguments))) := rfl
  refine readBack_of_construction htokens fun after hafter => ?_
  have hargs := reads_arguments ha after
  simp only [List.append_assoc]
  refine .unfold (·.construction) (.nested nofun ?_)
  refine .advance_bind rfl (.accept_no nofun (.kind_bind (.ite_neg nofun ?_)))
  -- the arguments are not taken for a call of the callee
  have hstop : Reads k (grammar.suffixes false callee)
      (group (listed (tokensOfArguments arguments)) ++ after) callee
      (group (listed (tokensOfArguments arguments)) ++ after) :=
    .unfold (fun r => r.suffixes false callee) (.chain_stop (.kind_bind (.pure k _ _)))
  refine .bind (hc.primary (Nat.lt_succ_self 7)) (.bind hstop (.check_yes rfl ?_))
  exact .bind hargs (.pure k _ after)

theorem readBack_newTarget (k : Nat) : Expr.newTarget.ReadBack (k + 2) :=
  readBack_of_construction rfl fun after _ => .unfold (·.construction) (.nested nofun
    (.advance_bind rfl (.accept_yes rfl (.kind_bind (.advance_bind rfl (.pure k _ after))))))

/-! ### Templates -/

/-- Substitutions and the pieces behind them are read in turn. -/
theorem reads_pieces {substitutions : List Expr} {quasis : List String}
    (hlen : quasis.length = substitutions.length) (hne : substitutions ≠ [])
    (h : ∀ e ∈ substitutions, e.Recovers k) (after : List Token) :
    Reads (k + 1) (Parse.collect (Rule.substitution grammar))
      (pieces (tokensOfSubstitutions substitutions) quasis ++ after) (substitutions.zip quasis)
      after := by
  induction substitutions generalizing quasis with
  | nil => exact absurd rfl hne
  | cons e es ih =>
    have he := h e List.mem_cons_self
    -- there are as many pieces as substitutions, and the last one is a tail
    cases quasis with
    | nil => cases hlen
    | cons cooked quasis =>
    cases es with
    | nil =>
      obtain rfl : quasis = [] := List.length_eq_zero_iff.1 (Nat.succ.inj hlen)
      simp only [tokensOfSubstitutions, pieces, List.append_assoc, List.singleton_append]
      refine .collect_last (.bind (he.sequence Nat.zero_lt_one) (.kind_bind ?_))
      exact .advance_bind rfl (.pure _ _ after)
    | cons e' es =>
      obtain ⟨next, quasis, rfl⟩ : ∃ next rest, quasis = next :: rest :=
        List.exists_cons_of_length_eq_add_one (Nat.succ.inj hlen)
      have hrest := ih (Nat.succ.inj hlen) (List.cons_ne_nil e' es) fun x hx =>
        h x (List.mem_cons_of_mem e hx)
      simp only [tokensOfSubstitutions, pieces, List.append_assoc, List.cons_append] at hrest ⊢
      refine .collect_more (.bind (he.sequence Nat.zero_lt_one) (.kind_bind ?_)) ?_ hrest
      · exact .advance_bind rfl (.pure _ _ _)
      · simp only [List.length_append, List.length_cons]
        omega

theorem reads_template {quasis : List String} {substitutions : List Expr}
    (hlen : quasis.length = substitutions.length + 1)
    (h : ∀ e ∈ substitutions, e.Recovers k) (after : List Token) :
    Reads (k + 1) grammar.templateLiteral ((Expr.template quasis substitutions).tokens ++ after)
      (.template quasis substitutions) after := by
  match quasis, substitutions, hlen with
  | [cooked], [], _ =>
    exact .unfold (·.templateLiteral) (.kind_bind (.advance_bind rfl (.pure _ _ after)))
  | cooked :: next :: quasis, e :: es, hlen =>
    have hlen' : (next :: quasis).length = (e :: es).length := Nat.succ.inj hlen
    refine .unfold (·.templateLiteral) (.kind_bind (.advance_bind rfl ?_))
    refine .bind (reads_pieces hlen' nofun h after) ?_
    rw [List.map_snd_zip (Nat.le_of_eq hlen'), List.map_fst_zip (Nat.le_of_eq hlen'.symm)]
    exact .pure _ _ after

theorem readBack_template {quasis : List String} {substitutions : List Expr}
    (hlen : quasis.length = substitutions.length + 1)
    (h : ∀ e ∈ substitutions, e.Recovers k) :
    (Expr.template quasis substitutions).ReadBack (k + 2) := by
  refine readBack_of_primary (fun after => ?_) fun after _ => ?_
  · match quasis, substitutions, hlen with
    | [cooked], [], _ => exact ⟨⟨rfl, rfl, nofun⟩, nofun⟩
    | cooked :: next :: quasis, e :: es, _ => exact ⟨⟨rfl, rfl, nofun⟩, nofun⟩
  · have htemplate := reads_template hlen h after
    refine .unfold (·.primary) (.kind_bind ?_)
    match quasis, substitutions, hlen with
    | [cooked], [], _ => exact htemplate
    | cooked :: next :: quasis, e :: es, _ => exact htemplate

theorem readBack_tagged {tag : Expr} {quasis : List String} {substitutions : List Expr}
    (ht : tag.Recovers k) (hlen : quasis.length = substitutions.length + 1)
    (h : ∀ e ∈ substitutions, e.Recovers k) :
    (Expr.tagged tag (.template quasis substitutions)).ReadBack (k + 2) := by
  intro after hafter
  have htemplate := reads_template hlen h after
  have htag := ht.mono (Nat.le_succ k)
  show Reads _ _ (group tag.tokens ++ (Expr.template quasis substitutions).tokens ++ after) _ _
  rw [List.append_assoc]
  match quasis, substitutions, hlen with
  | [cooked], [], _ =>
    refine reads_suffix htag (Nat.lt_succ_self 7) (.kind_bind ?_) (Nat.lt_succ_self _) hafter
    exact .bind htemplate (.pure _ _ after)
  | cooked :: next :: quasis, e :: es, _ =>
    refine reads_suffix htag (Nat.lt_succ_self 7) (.kind_bind ?_) ?_ hafter
    · exact .bind htemplate (.pure _ _ after)
    · exact length_lt_append (List.cons_ne_nil _ _) after

/-! ### Sequences -/

/-- Expressions behind commas are read one by one. -/
theorem reads_items {items : List Expr} (hne : items ≠ []) (h : ∀ e ∈ items, e.Recovers k)
    {after : List Token} (hafter : Closing after) :
    Reads (k + 1) (Parse.collect do
        if ← Parse.accept .comma then return .more (← grammar.assignment) else return .stop)
      (mark .comma :: (listed (tokensOfItems items) ++ after)) items after := by
  have hrank := hafter.bindingRank
  induction items with
  | nil => exact absurd rfl hne
  | cons e es ih =>
    have he := h e List.mem_cons_self
    cases es with
    | nil =>
      have hend : headKind after ≠ .punct .comma := by
        intro heq
        rw [heq] at hrank
        exact absurd hrank (by decide)
      refine .collect_more (.accept_yes rfl (.bind (he.assignment ?_) (.pure _ _ after))) ?_
        (.collect_stop (.accept_no hend (.pure _ _ after)))
      · omega
      · simp only [List.length_append, List.length_cons]
        omega
    | cons e' es =>
      have hrest := ih nofun fun x hx => h x (List.mem_cons_of_mem e hx)
      simp only [tokensOfItems, listed, List.append_assoc, List.cons_append] at hrest ⊢
      refine .collect_more (.accept_yes rfl (.bind (he.assignment ?_) (.pure _ _ _))) ?_ hrest
      · exact Nat.lt_succ_self 1
      · simp only [List.length_append, List.length_cons]
        omega

theorem readBack_sequence {items : List Expr} (hlen : 2 ≤ items.length)
    (h : ∀ e ∈ items, e.Recovers k) : (Expr.sequence items).ReadBack (k + 1) := by
  intro after hafter
  match items, hlen with
  | e :: e' :: es, _ =>
    have hrest := reads_items (List.cons_ne_nil e' es)
      (fun x hx => h x (List.mem_cons_of_mem e hx)) hafter
    simp only [Expr.tokens, tokensOfItems, listed, List.append_assoc, List.cons_append] at hrest ⊢
    refine .unfold (·.sequence) (.bind ((h e List.mem_cons_self).assignment ?_) (.bind hrest ?_))
    · exact Nat.lt_succ_self 1
    · exact .pure _ _ after

end

end TemplateVars
