/-
Steps do not run out.

The main result is `nested_calls_bounded`: a chain of nested calls is no longer than some
calls for each level that may be open, and with so many steps none is ever lacking.

* `rulesOver_eq` — with enough steps it makes no difference what the last rules of a chain
  would call;
* `grammar_finishes` — no rule of the grammar fails with `outOfSteps`;
* `Frame.deeper_of_transGen` — what every cycle among the rules goes through.

Design notes: `outOfSteps` is also the error of a list whose rounds take no token.  That no
round is of this kind is known from the tokens that a rule reads, `Rules.Writes`, so rules
finish if those they call finish and read what is written.
-/
import TemplateVars.Proofs.Grammar.Congruence

namespace TemplateVars

open Takes (Anywhere)

/-- Whether a reader never fails because it is out of steps. -/
def Parse.Finishes {α : Type} (p : Parse α) : Prop :=
  ∀ s e t, p s = .error e t → e.cause ≠ .outOfSteps

/-- A reader that cannot have taken nothing leaves fewer tokens. -/
theorem Takes.shorter {α : Type} {p : Parse α} {Q : α → List TokenKind → Prop}
    (h : Takes Anywhere p Q) {s t : Stream} {a : α} (hrun : p s = .ok a t) (hne : ¬Q a []) :
    t.rest.length < s.rest.length := by
  have htaken := h s trivial
  rw [hrun] at htaken
  obtain ⟨taken, hrest, -, hq⟩ := htaken
  have hpos : taken.length ≠ 0 := fun hnil => by
    rw [List.eq_nil_of_length_eq_zero hnil] at hq
    exact hne hq
  rw [hrest, List.length_append]
  omega

namespace Parse.Finishes

variable {α β : Type} {p q : Parse α}

/-- A reader that does not fail. -/
theorem of_ok (h : ∀ s, ∃ a t, p s = .ok a t) : p.Finishes := by
  intro s e t hs
  obtain ⟨a, u, hok⟩ := h s
  exact nomatch hok.symm.trans hs

theorem pure (a : α) : (Pure.pure a : Parse α).Finishes := of_ok fun _ => ⟨_, _, rfl⟩

theorem kind : Parse.kind.Finishes := of_ok fun _ => ⟨_, _, rfl⟩

theorem ahead (n : Nat) : (Parse.ahead n).Finishes := of_ok fun _ => ⟨_, _, rfl⟩

theorem get : (MonadState.get : Parse Stream).Finishes := of_ok fun _ => ⟨_, _, rfl⟩

theorem advance : Parse.advance.Finishes := of_ok fun _ => ⟨_, _, rfl⟩

/-- An error at a token is the one meant, or that of the token. -/
theorem errorHere_cause (s : Stream) {cause : SyntaxError} (h : cause ≠ .outOfSteps) :
    (s.errorHere cause).cause ≠ .outOfSteps := by
  unfold Stream.errorHere
  split
  · exact nofun
  · exact h

theorem fail {cause : SyntaxError} (h : cause ≠ .outOfSteps) :
    (Parse.fail cause : Parse α).Finishes := by
  intro s e t hs
  obtain ⟨rfl, rfl⟩ := EStateM.Result.error.inj hs
  exact errorHere_cause _ h

theorem expect (wanted : Expected) : (Parse.expect wanted).Finishes := by
  intro s e t hs
  unfold Parse.expect at hs
  split at hs
  · exact nomatch hs
  · obtain ⟨rfl, rfl⟩ := EStateM.Result.error.inj hs
    exact errorHere_cause _ nofun

theorem bind {f : α → Parse β} (hp : p.Finishes) (hf : ∀ a, (f a).Finishes) :
    (p >>= f).Finishes := by
  intro s e t hs
  cases hps : p s with
  | ok a u => exact hf a u e t ((Parse.bind_of_ok hps).symm.trans hs)
  | error e' u =>
    obtain ⟨rfl, -⟩ := EStateM.Result.error.inj ((Parse.bind_of_error hps).symm.trans hs)
    exact hp s _ u hps

theorem ite {c : Prop} [Decidable c] (hp : p.Finishes) (hq : q.Finishes) :
    (if c then p else q).Finishes := by
  split
  · exact hp
  · exact hq

theorem nested (h : p.Finishes) : (Parse.nested p).Finishes := by
  intro s e t hs
  unfold Parse.nested at hs
  split at hs
  · obtain ⟨rfl, rfl⟩ := EStateM.Result.error.inj hs
    exact errorHere_cause _ nofun
  · cases hps : p { s with depth := s.depth + 1 } with
    | ok a u => rw [hps] at hs; exact nomatch hs
    | error e' u =>
      rw [hps] at hs
      obtain ⟨rfl, -⟩ := EStateM.Result.error.inj hs
      exact h _ _ u hps

theorem skipBlock : Rule.skipBlock.Finishes := by
  refine .bind (.expect _) fun _ => .bind .get fun s => ?_
  simp only []
  refine .bind (.of_ok fun _ => ⟨_, _, rfl⟩) fun _ => ?_
  exact .ite (.pure _) (.fail nofun)

/-- A list is read to its end if each round that is not the last takes a token. -/
theorem collect {round : Parse (Parse.Item α)} (h : round.Finishes)
    (htakes : Parse.RoundTakes round) : (Parse.collect round).Finishes := by
  intro s e t hs
  fun_induction Parse.collect round s with
  | case1 s e' u hr =>
    obtain ⟨rfl, -⟩ := EStateM.Result.error.inj hs
    exact h s _ u hr
  | case2 => cases hs
  | case3 => cases hs
  | case4 => cases hs
  | case5 s a u hr hlt e' v hrest ih =>
    obtain ⟨rfl, rfl⟩ := EStateM.Result.error.inj hs
    exact ih hrest
  | case6 s a u hr hstuck => exact absurd (htakes.shorter hr fun hnil => hnil a rfl rfl) hstuck

/-- A value is extended to the end if each link takes a token. -/
theorem chain {link : α → Parse (Option α)} (h : ∀ a, (link a).Finishes)
    (htakes : Parse.LinkTakes link) (a : α) : (Parse.chain link a).Finishes := by
  intro s e t hs
  fun_induction Parse.chain link a s with
  | case1 a s e' u hr =>
    obtain ⟨rfl, -⟩ := EStateM.Result.error.inj hs
    exact h a s _ u hr
  | case2 => cases hs
  | case3 a s b u hr hlt ih => exact ih hs
  | case4 a s b u hr hstuck =>
    exact absurd ((htakes a).shorter hr fun hnil => hnil b rfl rfl) hstuck

/-- A reader finishes if its parts do and its rounds and links take tokens. -/
theorem congruence : Congruence fun _ _ _ p => p.Finishes where
  anywhere h := h
  pure := .pure
  fail := .fail
  advance := .advance
  bind := .bind
  kind h _ := .bind .kind h
  nested h _ := .nested h
  nested_at _ h := .nested h
  collect := .collect
  chain := .chain

end Parse.Finishes

/-- Whether no rule fails because it is out of steps. -/
def Rules.Finish (r : Rules) : Prop := ∀ c : RuleCall, (r.read c).Finishes

/-- Rules finish if those they call do and read what is written. -/
theorem Rules.Finish.step {r : Rules} (h : r.Finish) (hw : r.Writes) : r.step.Finish := by
  have hlook : r.Lookahead (fun _ _ _ p => p.Finishes) r :=
    Parse.Finishes.congruence.lookahead h .ahead fun _ hf => .bind .get fun _ => hf _
  exact Parse.Finishes.congruence.step_skipBlock h hw hlook .skipBlock

/-! ### The grammar -/

/-- The rules for chains of `n` nested calls, the last of which call the given rules. -/
def Grammar.rulesOver (r : Rules) : Nat → Rules
  | 0 => r
  | n + 1 => (rulesOver r n).step

theorem rulesOver_rules (m n : Nat) :
    Grammar.rulesOver (Grammar.rules m) n = Grammar.rules (n + m) := by
  induction n with
  | zero => rw [Nat.zero_add, Grammar.rulesOver]
  | succ n ih => rw [Nat.succ_add, Grammar.rules, Grammar.rulesOver, ih]

/-- Rules over others agree as far as they do not reach these. -/
theorem rulesOver_agree (r r' : Rules) (n : Nat) :
    (Grammar.rulesOver r n).AgreeUpTo levelCost n (Grammar.rulesOver r' n) := by
  induction n with
  | zero => exact .zero (fun hd => Nat.le_of_eq (levelCost_succ hd)) _ _
  | succ n ih => exact ih.step

/-- With enough steps, the rules over any others are the grammar. -/
theorem rulesOver_eq (r : Rules) {n : Nat} (hn : Grammar.callsPerLevel * (maxDepth + 1) ≤ n) :
    Grammar.rulesOver r n = Grammar.grammar := by
  have same : ∀ (r r' : Rules) {m : Nat}, Grammar.callsPerLevel * (maxDepth + 1) ≤ m →
      Grammar.rulesOver r m = Grammar.rulesOver r' m :=
    fun r r' m hm => (rulesOver_agree r r' m).eq_of_enough fun d => (levelCost_le d).trans hm
  -- more steps are steps over rules that may take the others
  obtain ⟨k, rfl⟩ := Nat.exists_eq_add_of_le hn
  calc Grammar.rulesOver r (Grammar.callsPerLevel * (maxDepth + 1) + k)
    _ = Grammar.rulesOver (Grammar.rules 0) _ := same _ _ hn
    _ = Grammar.rules (Grammar.callsPerLevel * (maxDepth + 1) + k) := rulesOver_rules 0 _
    _ = Grammar.rulesOver (Grammar.rules k) (Grammar.callsPerLevel * (maxDepth + 1)) :=
      (rulesOver_rules k _).symm
    _ = Grammar.rulesOver (Grammar.rules 0) (Grammar.callsPerLevel * (maxDepth + 1)) :=
      same _ _ (Nat.le_refl _)
    _ = Grammar.grammar := rulesOver_rules 0 _

/-- No rule of the grammar fails because it is out of steps. -/
theorem grammar_finishes : Grammar.grammar.Finish := by
  -- over rules that fail with another error, it is an error of none
  let r : Rules := .ofReaders fun _ => .fail .tooDeep
  have hr : ∀ n, (Grammar.rulesOver r n).Writes ∧ (Grammar.rulesOver r n).Finish := by
    intro n
    induction n with
    | zero =>
      refine ⟨?_, fun c => ?_⟩
      · constructor
        all_goals
          intros
          exact .fail
      · show ((Rules.ofReaders _).read c).Finishes
        rw [Rules.read_ofReaders]
        exact .fail nofun
    | succ n ih => exact ⟨ih.1.step, ih.2.step ih.1⟩
  rw [← rulesOver_eq r (Nat.le_refl _)]
  exact (hr _).2

/-! ### Nested calls -/

/-- Where nested calls come back to a rule, levels were opened, or it is the rule of infix
operators and its precedence was raised. -/
theorem Frame.deeper_of_transGen {a b : Frame} (h : Relation.TransGen MayCall a b)
    (hrule : a.call.SameRule b.call) :
    a.stream.depth < b.stream.depth ∨ a.stream.depth = b.stream.depth ∧
      ∃ m m', a.call = .binary m ∧ b.call = .binary m' ∧ m < m' := by
  obtain ⟨hcost, hdepth⟩ := cost_lt_of_transGen h
  refine (Nat.lt_or_eq_of_le hdepth).imp_right fun hsame => ⟨hsame, ?_⟩
  -- at one level costs fall as places do
  have hplace : b.call.place < a.call.place := by
    unfold cost at hcost
    rw [hsame] at hcost
    omega
  rcases hrule.place_eq with heq | ⟨m, m', ha, hb⟩
  · omega
  · refine ⟨m, m', ha, hb, ?_⟩
    rw [ha, hb, RuleCall.place, RuleCall.place] at hplace
    omega

/-- Calls do not nest without bound.  Whatever is read, a chain of nested calls has at most
`callsPerLevel` entries for each level that may be open; with so many steps the grammar is
the same over any rules, and fails with no lack of steps; and a cycle among the rules opens
a level or raises the precedence of an infix operator. -/
theorem nested_calls_bounded :
    (∀ a b, Grammar.grammar.Calls a b → a.MayCall b) ∧
    (∀ calls : List Frame, calls.IsChain Frame.MayCall →
      calls.length ≤ Grammar.callsPerLevel * (maxDepth + 1)) ∧
    (∀ n, Grammar.callsPerLevel * (maxDepth + 1) ≤ n →
      Grammar.rules n = Grammar.grammar ∧ ∀ r, Grammar.rulesOver r n = Grammar.grammar) ∧
    (∀ c s e t, Grammar.grammar.read c s = .error e t → e.cause ≠ .outOfSteps) ∧
    ∀ a b, Relation.TransGen Frame.MayCall a b → a.call.SameRule b.call →
      a.stream.depth < b.stream.depth ∨ a.stream.depth = b.stream.depth ∧
        ∃ m m', a.call = .binary m ∧ b.call = .binary m' ∧ m < m' := by
  refine ⟨fun a b => Frame.mayCall_of_grammar, fun calls hcalls => ?_, fun n hn => ⟨?_, ?_⟩,
    grammar_finishes, fun a b => Frame.deeper_of_transGen⟩
  · cases calls with
    | nil => exact Nat.zero_le _
    | cons a calls => exact (Frame.chain_length_le hcalls).trans a.cost_le
  · exact (rulesOver_rules 0 n).symm.trans (rulesOver_eq _ hn)
  · exact fun r => rulesOver_eq r hn

/-- The operand of a sign is read by the rule that reads the sign, a level deeper. -/
theorem calls_behind_sign {t : Token} (ts : List Token) {d : Nat} {op : UnaryOperator}
    (ht : t.kind.unaryOperator? = some op) (hd : d < maxDepth) :
    Grammar.grammar.Calls ⟨.unary, ⟨t :: ts, d⟩⟩ ⟨.unary, ⟨ts, d + 1⟩⟩ := by
  intro e
  have hadvance : (Stream.advance ⟨t :: ts, d⟩) = ⟨ts, d⟩ :=
    advance_cons (Rules.Writes.unary_token ht).1 ts d
  have hcall : (Grammar.grammar.failingAt ⟨.unary, ⟨ts, d + 1⟩⟩ e).unary ⟨ts, d + 1⟩ =
      .error e ⟨ts, d + 1⟩ := if_pos rfl
  have hnested : Parse.nested (Grammar.grammar.failingAt ⟨.unary, ⟨ts, d + 1⟩⟩ e).unary ⟨ts, d⟩ =
      .error e ⟨ts, d⟩ := (Parse.nested_error hd).2 ⟨_, hcall, rfl⟩
  refine ⟨⟨ts, d⟩, ?_⟩
  show Rule.unary _ ⟨t :: ts, d⟩ = EStateM.Result.error (α := Expr) e _
  have hkind : Parse.kind ⟨t :: ts, d⟩ = .ok t.kind ⟨t :: ts, d⟩ := rfl
  have hsign : Parse.advance ⟨t :: ts, d⟩ = .ok () ⟨ts, d⟩ :=
    congrArg (EStateM.Result.ok ()) hadvance
  rw [Rule.unary, Parse.bind_of_ok hkind]
  simp only [ht]
  rw [Parse.bind_of_ok hsign]
  exact Parse.bind_of_error hnested

/-- The rule for signs comes back to itself in `-x`, a level deeper. -/
theorem nested_calls_bounded_sign :
    Frame.MayCall ⟨.unary, ⟨tokenize "-x", 0⟩⟩ ⟨.unary, ⟨(tokenize "-x").tail, 1⟩⟩ ∧
    [Frame.mk .unary ⟨tokenize "-x", 0⟩, ⟨.unary, ⟨(tokenize "-x").tail, 1⟩⟩].length ≤
      Grammar.callsPerLevel * (maxDepth + 1) ∧
    (0 < 1 ∨
      0 = 1 ∧ ∃ m m', RuleCall.unary = .binary m ∧ RuleCall.unary = .binary m' ∧ m < m') := by
  have hcalls : Grammar.grammar.Calls ⟨.unary, ⟨tokenize "-x", 0⟩⟩
      ⟨.unary, ⟨(tokenize "-x").tail, 1⟩⟩ := by
    have hsign : (headKind (tokenize "-x")).unaryOperator? = some .minus := by decide +kernel
    cases htokens : tokenize "-x" with
    | nil => rw [htokens] at hsign; exact nomatch hsign
    | cons t ts => rw [htokens] at hsign; exact calls_behind_sign ts hsign (by decide)
  have hmay := nested_calls_bounded.1 _ _ hcalls
  exact ⟨hmay, nested_calls_bounded.2.1 _ (.cons_cons hmay (.singleton _)),
    nested_calls_bounded.2.2.2.2 _ _ (.single hmay) rfl⟩

end TemplateVars
