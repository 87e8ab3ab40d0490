/-
What is inside a skipped body never matters.

The main result is `expression_bodies`: an expression that passes over a body between
braces is read the same with any other body there, and what is left is left over both.

* `Grammar.rulesWith` — the rules with another reader in place of `skipBlock`;
* `PassesOver` — whether a run passes over the block at some tokens;
* `Bodies.BlindRules.step` — rules are blind to the body if those they call are.

Design notes: being blind is a congruence, so only the rules that look further ahead than to
the next token are gone through here.  Whether a name is followed by an arrow is looked up one
or two tokens ahead, which may be the brace that opens the body but nothing behind it, as
the tokens before are known by then to be other ones.
-/
import TemplateVars.Proofs.Grammar.Bodies
import TemplateVars.Proofs.Grammar.Congruence

namespace TemplateVars

open Takes (Anywhere)

/-! ### Another reader for blocks -/

namespace Grammar

/-- `rules` with some reader in place of `skipBlock`. -/
def rulesWith (block : Parse Unit) : Nat → Rules
  | 0 => .exhausted
  | n + 1 => (rulesWith block n).stepWith block

theorem rulesWith_skipBlock (n : Nat) : rulesWith Rule.skipBlock n = rules n := by
  induction n with
  | zero => rfl
  | succ n ih => rw [rulesWith, ih, Rules.stepWith_skipBlock, rules]

end Grammar

/-- `Parse.expression` with some reader in place of `skipBlock`. -/
def Parse.expressionWith (block : Parse Unit) : Parse Expr := do
  let e ← (Grammar.rulesWith block (Grammar.callsPerLevel * (maxDepth + 1))).sequence
  match ← kind with
  | .invalid _ => fail .trailingInvalid
  | _ => return e

theorem Parse.expressionWith_skipBlock : expressionWith Rule.skipBlock = expression := by
  rw [expressionWith, Grammar.rulesWith_skipBlock]
  rfl

/-- Whether an expression, read from a stream, passes over the block that some tokens begin
with: it fails with whatever error that block fails with. -/
def PassesOver (ts : List Token) (s : Stream) : Prop :=
  ∀ e, ∃ t, (Parse.expressionWith (Rule.skipBlockBut ts e)).run s = (.error e, t)

/-! ### Rules -/

/-- The tokens in front of a body at which a rule may be called: a function that starts with
`async` is looked for at this very word. -/
def RuleCall.Needs : RuleCall → List Token → Prop
  | asyncFunction? => (· ≠ [])
  | _ => Anywhere

/-- Whether no call sees which of two bodies is there. -/
def Bodies.BlindRules (b : Bodies) (e : ParseError) (probe r : Rules) : Prop :=
  ∀ c : RuleCall, b.Blind e c.Needs (probe.read c) (r.read c)

/-- What is known of the tokens in front of a body from the kind of the token ahead: if that
is a word, there are some. -/
def BehindWord : Option TokenKind → List Token → Prop
  | some (.identifier _) => (· ≠ [])
  | _ => Anywhere

theorem RuleCall.needs_eq (c : RuleCall) : c.Needs = BehindWord c.ahead? := by
  cases c <;> rfl

theorem behindWord_some {k : TokenKind} {us : List Token} (h : us = [] → ∃ m, k = .punct m) :
    BehindWord (some k) us := by
  cases k with
  | identifier name =>
    intro hnil
    obtain ⟨m, hm⟩ := h hnil
    exact nomatch hm
  | _ => trivial

namespace Bodies.BlindRules

variable {b : Bodies} {e : ParseError} {probe r : Rules}

/-- A word is not the brace that opens the body. -/
theorem behindWord {us : List Token} {k : TokenKind} (h : headKind (b.one us) = k) :
    BehindWord (some k) us := by
  refine behindWord_some fun hnil => ⟨.leftBrace, ?_⟩
  subst hnil
  exact h.symm.trans b.opening_brace

/-! ### Looking ahead -/

theorem postfixUpdate (argument : Expr) :
    b.Blind e Anywhere (Rule.postfixUpdate argument) (Rule.postfixUpdate argument) := by
  refine .bind (.ahead fun _ _ => Nat.zero_le _) fun t => ?_
  split
  · exact .ite .pure (.bind .advance fun _ => .pure)
  · exact .pure

theorem nameOrArrow (h : b.BlindRules e probe r) (name : String) :
    b.Blind e Anywhere (Rule.nameOrArrow probe name) (Rule.nameOrArrow r name) :=
  .ahead_advance fun _ => .ite (.bind .advance fun _ => h (.arrowBody false _)) .pure

theorem asyncFunctionRule (h : b.BlindRules e probe r) :
    b.Blind e (· ≠ []) (Rule.asyncFunction? probe) (Rule.asyncFunction? r) := by
  refine .ahead_bind (fun us hus => List.length_pos_iff.2 hus) fun next => .ite .pure ?_
  split
  · exact .bind .advance fun _ => .bind (h (.functionExpression true)) fun _ => .pure
  · next name hname =>
    have hlong : ∀ us, us ≠ [] ∧ (Stream.mk (b.one us) 0).ahead 1 = next → 2 ≤ us.length := by
      rintro us ⟨hne, hnext⟩
      match us, hne with
      | [u], _ =>
        rw [← hnext] at hname
        exact nomatch b.opening_brace.symm.trans hname
      | _ :: _ :: us, _ => exact Nat.le_add_left 2 us.length
    refine .bind (.ahead hlong) fun _ => .ite (.bind .advance fun _ => .bind .advance fun _ =>
      .bind .advance fun _ => ?_) .pure
    exact .bind (h (.arrowBody true _)) fun _ => .pure
  · refine .get_bind (fun s => .ite (.bind .advance fun _ => ?_) .pure) fun us d hus => ?_
    · exact .bind (h (.parenthesized true)) fun _ => .pure
    · -- what `async` stands in front of begins in front of the body, or with it
      match us, hus.1 with
      | _ :: us, _ =>
        show ite (arrowFollows (b.one us) = true) _ _ = ite (arrowFollows (b.two us) = true) _ _
        rw [b.arrowFollows_same us]
  · exact .pure

theorem parenthesizedRule (h : b.BlindRules e probe r) (isAsync : Bool) :
    b.Blind e Anywhere (Rule.parenthesized probe isAsync) (Rule.parenthesized r isAsync) := by
  refine .get_bind (fun s => .ite ?_ ?_) fun us d _ => ?_
  · refine .bind (h .parameters) fun params => .bind .expect fun _ => ?_
    exact h (.arrowBody isAsync params)
  · exact .bind .advance fun _ => .bind (h .sequence) fun _ => .bind .expect fun _ => .pure
  · simp only [b.arrowFollows_same us]

theorem modifier : b.Blind e Anywhere Rule.modifier Rule.modifier := by
  refine .kind_bind fun k => ?_
  split
  · split
    · refine .bind (.ahead fun us hus => List.length_pos_iff.2 (behindWord hus.2)) fun _ => ?_
      exact .ite (.bind .advance fun _ => .pure) .pure
    · exact .pure
  · exact .pure

theorem lookahead (h : b.BlindRules e probe r) :
    probe.Lookahead (fun k _ q p => b.Blind e (BehindWord k) q p) r where
  postfixUpdate := .bind (h .operand) postfixUpdate
  nameOrArrow := h.nameOrArrow
  asyncFunction? := h.asyncFunctionRule
  parenthesized := h.parenthesizedRule
  modifier := modifier

/-! ### The rules -/

/-- Readers put together are blind if their parts are. -/
theorem congruence (b : Bodies) (e : ParseError) :
    Congruence fun k _ q p => b.Blind e (BehindWord k) q p where
  anywhere h := .anywhere h
  pure _ := .pure
  fail _ := .fail
  advance := .advance
  bind := .bind
  kind h _ := .kind_bind fun k => (h k).weaken fun _ hus => behindWord hus.2
  nested h _ := .nested h
  nested_at _ h := .nested h
  collect h _ := .collect h
  chain h _ := .chain h

theorem related_iff : b.BlindRules e probe r ↔
    probe.Related (fun k _ q p => b.Blind e (BehindWord k) q p) r :=
  forall_congr' fun c => by rw [c.needs_eq]

/-- Rules are blind if those they call and the reader for blocks are. -/
theorem step (h : b.BlindRules e probe r) (hw : r.Writes) {block : Parse Unit}
    (hblock : b.Blind e Anywhere block Rule.skipBlock) :
    b.BlindRules e (probe.stepWith block) r.step :=
  related_iff.2 ((congruence b e).step (related_iff.1 h) hw h.lookahead hblock)

theorem exhausted : b.BlindRules e .exhausted .exhausted :=
  related_iff.2 ((congruence b e).exhausted .fail)

end Bodies.BlindRules

/-! ### Expressions -/

theorem Bodies.rules_blind (b : Bodies) (e : ParseError) (n : Nat) :
    b.BlindRules e (Grammar.rulesWith (Rule.skipBlockBut (b.one []) e) n) (Grammar.rules n) := by
  induction n with
  | zero => exact .exhausted
  | succ n ih => exact ih.step (rules_write n) .skipBlock

theorem Bodies.expression_blind (b : Bodies) (e : ParseError) :
    b.Blind e Anywhere (Parse.expressionWith (Rule.skipBlockBut (b.one []) e))
      Parse.expression := by
  refine .bind (b.rules_blind e _ .sequence) fun _ => .bind .kind fun k => ?_
  cases k with
  | invalid error => exact .fail
  | _ => exact .pure

/-- What is inside a skipped body never matters.  An expression that is read from tokens with
a body in them, and passes over that body, ends behind it; with any other body in its place
the same tree is read, so that the same variables are free, and the same tokens are left. -/
theorem expression_bodies {before first second after : List Token} {opening closing : Token}
    {d : Nat} {e : Expr} {s : Stream} (hopening : opening.kind = .punct .leftBrace)
    (hclosing : closing.kind = .punct .rightBrace) (hfirst : Nested brackets (kinds first))
    (hsecond : Nested brackets (kinds second))
    (hrun : Parse.expression.run ⟨before ++ opening :: (first ++ closing :: after), d⟩ = (.ok e, s))
    (hpasses : PassesOver (opening :: (first ++ closing :: after))
      ⟨before ++ opening :: (first ++ closing :: after), d⟩) :
    s.rest <:+ after ∧
      Parse.expression.run ⟨before ++ opening :: (second ++ closing :: after), d⟩ = (.ok e, s) := by
  let b : Bodies := ⟨opening, first, second, closing, after, hopening, hclosing, hfirst, hsecond⟩
  let error : ParseError := ⟨0, 0, .outOfSteps⟩
  obtain ⟨t, ht⟩ := hpasses error
  obtain ⟨hrest, htwo⟩ := (b.expression_blind error).across trivial
    (Parse.run_error_iff.1 ht) (Parse.run_ok_iff.1 hrun)
  exact ⟨hrest, Parse.run_ok_iff.2 htwo⟩

/-- A function as the default of a parameter: whether an arrow follows the parameters is
looked up across its body. -/
theorem expression_bodies_default :
    let before : List Token := [.bare (.punct .leftParen), .bare (.identifier "f"),
      .bare (.assign .plain), .bare (.identifier "x"), .bare (.punct .arrow)]
    let first : List Token := [.bare (.identifier "a")]
    let second : List Token := [.bare (.punct .leftBracket), .bare (.punct .arrow),
      .bare (.punct .rightBracket)]
    let after : List Token := [.bare (.punct .rightParen), .bare (.punct .arrow),
      .bare (.identifier "f"), .bare .eof]
    let tokens (body : List Token) : List Token :=
      before ++ .bare (.punct .leftBrace) :: (body ++ .bare (.punct .rightBrace) :: after)
    Nested brackets (kinds first) ∧ Nested brackets (kinds second) ∧
      PassesOver ((tokens first).drop 5) ⟨tokens first, 0⟩ ∧
      ∃ e s, Parse.expression.run ⟨tokens first, 0⟩ = (.ok e, s) ∧ s.rest <:+ after ∧
        Parse.expression.run ⟨tokens second, 0⟩ = (.ok e, s) := by
  intro before first second after tokens
  have hfirst : Nested brackets (kinds first) := .plain (by decide) .nil
  have hsecond : Nested brackets (kinds second) :=
    .group (List.mem_cons_of_mem _ List.mem_cons_self) (.plain (by decide) .nil) .nil
  have hrun : Parse.expression.run ⟨tokens first, 0⟩ =
      (.ok (.function .arrow false none [.withDefault (.identifier "f")
        (.function .arrow false none [.identifier "x"] .block)] (.expression (.identifier "f"))),
      ⟨[.bare .eof], 0⟩) := by
    with_unfolding_all rfl
  have hpasses : PassesOver ((tokens first).drop 5) ⟨tokens first, 0⟩ := by
    refine fun e => ⟨⟨(tokens first).drop 5, 0⟩, ?_⟩
    with_unfolding_all rfl
  exact ⟨hfirst, hsecond, hpasses, _, _, hrun,
    expression_bodies rfl rfl hfirst hsecond hrun hpasses⟩

end TemplateVars
