/-
What is read has been written.

The main result is `expression_written`: an expression is read from tokens that are
a spelling of it, in which each function body that was passed over is a block
with nested braces.  So no name, literal, operator or part of an expression is
lost, repeated or moved, except within such a block.

* `Rules.Writes.step` — each rule reads spellings if those it calls do;
* `rules_write` — so do rules for chains of any number of calls.

Design notes: `Rules.Writes` has one field for each rule.  A rule that starts by
taking a token asks its callers for the kind of that token.  What follows an
object or stands behind `async` is read apart from it, so those fields speak of the
tokens of both.
-/
import TemplateVars.Proofs.Grammar.Taking

namespace TemplateVars

open TemplateVars.Part Spelling
open Takes (Anywhere At ahead_behind)

/-- Whether a part of a tree may be written with some tokens, the braces of its
blocks being nested. -/
abbrev Written (part : Part) (ks : List TokenKind) : Prop := Spells (Nested braces) part ks

/-- Whether some tokens are a list between two marks. -/
def WrittenBetween (opening closing : Punctuator) (list : Part) (ks : List TokenKind) : Prop :=
  ∃ inner, Written list inner ∧ ks = enclosed opening closing inner

/-- Whether each rule reads only what is written. -/
structure Rules.Writes (r : Rules) : Prop where
  sequence : Takes Anywhere r.sequence fun e => Written (expr e)
  assignment : Takes Anywhere r.assignment fun e => Written (expr e)
  conditional : Takes Anywhere r.conditional fun e => Written (expr e)
  binary (minPrecedence : Nat) :
    Takes Anywhere (r.binary minPrecedence) fun e => Written (expr e)
  exponent : Takes Anywhere r.exponent fun e => Written (expr e)
  unary : Takes Anywhere r.unary fun e => Written (expr e)
  operand : Takes Anywhere r.operand fun e => Written (expr e)
  suffixes (allowCalls : Bool) {object : Expr} {ks : List TokenKind}
    (h : Written (expr object) ks) :
    Takes Anywhere (r.suffixes allowCalls object) fun e ks' => Written (expr e) (ks ++ ks')
  construction : Takes (At (.keyword .new)) r.construction fun e => Written (expr e)
  arguments : Takes (At (.punct .leftParen)) r.arguments fun as =>
    WrittenBetween .leftParen .rightParen (Part.arguments as)
  primary : Takes Anywhere r.primary fun e => Written (expr e)
  asyncFunction? : Takes (At (.identifier "async")) r.asyncFunction? fun f ks =>
    match f with
    | none => ks = []
    | some e => Written (expr e) ks
  parenthesized (isAsync : Bool) :
    Takes (fun ts => At (.punct .leftParen) ts ∧ (isAsync = true → arrowFollows ts = true))
      (r.parenthesized isAsync) fun e ks => Written (expr e) (kinds (async isAsync) ++ ks)
  arrowBody (isAsync : Bool) (params : List Pattern) :
    Takes Anywhere (r.arrowBody isAsync params) fun e ks =>
      ∃ b, e = .function .arrow isAsync none params b ∧ Written (.body b) ks
  functionExpression (isAsync : Bool) :
    Takes (At (.keyword .function)) (r.functionExpression isAsync) fun e ks =>
      Written (expr e) (kinds (async isAsync) ++ ks)
  parameters : Takes Anywhere r.parameters fun ps =>
    WrittenBetween .leftParen .rightParen (Part.params ps)
  bindingElement : Takes Anywhere r.bindingElement fun p => Written (.phrase (.binding p))
  bindingTarget : Takes Anywhere r.bindingTarget fun p => Written (.phrase (.target p))
  arrayPattern :
    Takes (At (.punct .leftBracket)) r.arrayPattern fun p => Written (.phrase (.target p))
  objectPattern :
    Takes (At (.punct .leftBrace)) r.objectPattern fun p => Written (.phrase (.target p))
  arrayLiteral : Takes (At (.punct .leftBracket)) r.arrayLiteral fun e => Written (expr e)
  objectLiteral : Takes (At (.punct .leftBrace)) r.objectLiteral fun e => Written (expr e)
  objectMember : Takes Anywhere r.objectMember fun p => Written (.phrase (.property p))
  propertyKey : Takes Anywhere r.propertyKey fun k ks =>
    Written (.phrase (.key k.1)) ks ∧
      ∀ name, k.2 = some name → k.1 = .fixed name ∧ ks = [.identifier name]
  templateLiteral : Takes Anywhere r.templateLiteral fun e ks =>
    ∃ quasis es, e = .template quasis es ∧ Written (.template quasis es) ks

/-- Whether tokens are what a link reads behind an expression: none if nothing follows it, else
what is written behind it in the longer expression. -/
def WrittenBehind (left : Expr) : Option Expr → List TokenKind → Prop
  | none, ks => ks = []
  | some e, ks => ks ≠ [] ∧ ∀ before, Written (expr left) before → Written (expr e) (before ++ ks)

/-- A value that is extended by links is written by what they read. -/
theorem Takes.chain_written {link : Expr → Parse (Option Expr)} {left : Expr} {ks : List TokenKind}
    (h : ∀ left, Takes Anywhere (link left) (WrittenBehind left)) (hleft : Written (expr left) ks) :
    Takes Anywhere (Parse.chain link left) fun e ks' => Written (expr e) (ks ++ ks') := by
  refine .chain (C := fun e => Written (expr e)) (fun left ks hl => ?_) hleft
  refine (h left).mono (fun _ h => h) fun next ks' hnext => ?_
  cases next with
  | none => exact hnext
  | some e => exact hnext.2 ks hl

namespace Rules.Writes

variable {r : Rules}

/-! ### Operators -/

theorem sequenceRule (h : r.Writes) :
    Takes Anywhere (Rule.sequence r) fun e => Written (expr e) := by
  -- what the rounds read goes on from any expression before the first comma
  refine .andThen h.assignment fun first ks hfirst => .andThen (Q := fun es ks' =>
    (es = [] → ks' = []) ∧ ∀ e ks, Written (expr e) ks → Written (.items (e :: es)) (ks ++ ks'))
    (.collect ?_) fun rest ks' hrest => ?_
  · refine .accept_bind (.andThen h.assignment fun e ks he => .pure ?_) (.pure ?_)
    · intro es ks' hes
      refine ⟨nofun, fun e' ks'' he' => ?_⟩
      simpa using Spells.itemBefore he' (hes.2 e ks he)
    · refine ⟨fun _ => rfl, fun e ks he => ?_⟩
      rw [List.append_nil]
      exact .item he
  · split
    · refine .pure ?_
      rw [hrest.1 rfl, List.append_nil, List.append_nil]
      exact hfirst
    · next hne =>
      refine .pure ?_
      rw [List.append_nil]
      cases rest with
      | nil => exact absurd rfl hne
      | cons e es => exact .sequence (hrest.2 _ _ hfirst)

theorem assignmentRule (h : r.Writes) :
    Takes Anywhere (Rule.assignment r) fun e => Written (expr e) := by
  refine .nested (.andThen h.conditional fun target ks ht => .kind_bind fun k => ?_)
  split
  · refine .advance_bind rfl (fun _ hk => hk.2) (.andThen h.assignment fun value ks' hv => .pure ?_)
    rw [List.append_nil]
    exact .assign _ ht hv
  · exact .pure (by rwa [List.append_nil])

theorem conditionalRule (h : r.Writes) :
    Takes Anywhere (Rule.conditional r) fun e => Written (expr e) := by
  refine .andThen (h.binary 1) fun test ks ht => .accept_bind ?_ (.pure (by rwa [List.append_nil]))
  refine .andThen h.assignment fun consequent ks' hc => .expect_bind ?_
  refine .andThen h.assignment fun alternate ks'' ha => .pure ?_
  rw [List.append_nil]
  exact .conditional ht hc ha

theorem infix_token {k : TokenKind} {p : Nat} {op : InfixOperator}
    (hk : k.infixOperator? = some (p, op)) : match op with
      | .binary op => k = op.token.kind
      | .logical op => k = op.token.kind := by
  unfold TokenKind.infixOperator? at hk
  split at hk
  all_goals first
    | cases hk; rfl
    | exact nomatch hk

/-- The token of an infix operator spells it. -/
theorem infix_written {k : TokenKind} {p : Nat} {op : InfixOperator} {left right : Expr}
    {ks ks' : List TokenKind} (hk : k.infixOperator? = some (p, op))
    (hl : Written (expr left) ks) (hr : Written (expr right) ks') :
    Written (expr (op.apply left right)) (ks ++ k :: ks') := by
  have htoken := infix_token hk
  cases op with
  | binary op => rw [htoken]; exact .binary op hl hr
  | logical op => rw [htoken]; exact .logical op hl hr

theorem infixLink (h : r.Writes) (minPrecedence : Nat) (left : Expr) :
    Takes Anywhere (Rule.infixLink r minPrecedence left) (WrittenBehind left) := by
  refine .kind_bind fun k => ?_
  split
  · next precedence op hop =>
    refine .ite (fun _ => .pure rfl) fun _ =>
      .advance_bind (TokenKind.live_of_infix hop) (fun _ hk => hk.2) ?_
    refine .andThen (h.binary _) fun right ks' hr => .pure ?_
    rw [List.append_nil]
    exact ⟨nofun, fun ks hl => infix_written hop hl hr⟩
  · exact .pure rfl

theorem binaryRule (h : r.Writes) (minPrecedence : Nat) :
    Takes Anywhere (Rule.binary r minPrecedence) fun e => Written (expr e) :=
  .andThen h.exponent fun _ _ hfirst => .chain_written (h.infixLink minPrecedence) hfirst

theorem exponentRule (h : r.Writes) :
    Takes Anywhere (Rule.exponent r) fun e => Written (expr e) := by
  refine .andThen h.unary fun base ks hb => .accept_bind ?_ (.pure (by rwa [List.append_nil]))
  refine .andThen (.nested h.exponent) fun e ks' he => .pure ?_
  rw [List.append_nil]
  exact .binary .exponent hb he

theorem unary_token {k : TokenKind} {op : UnaryOperator} (hk : k.unaryOperator? = some op) :
    k.isTerminal = false ∧ k = op.token.kind := by
  unfold TokenKind.unaryOperator? at hk
  split at hk
  all_goals first
    | cases hk; exact ⟨rfl, rfl⟩
    | exact nomatch hk

theorem update_token {k : TokenKind} {op : UpdateOperator} (hk : k.updateOperator? = some op) :
    k.isTerminal = false ∧ k = op.token.kind := by
  unfold TokenKind.updateOperator? at hk
  split at hk
  all_goals first
    | cases hk; exact ⟨rfl, rfl⟩
    | exact nomatch hk

theorem postfixUpdate {argument : Expr} {ks : List TokenKind} (ha : Written (expr argument) ks) :
    Takes Anywhere (Rule.postfixUpdate argument) fun e ks' => Written (expr e) (ks ++ ks') := by
  refine .ahead_bind fun t => ?_
  split
  · next op hop =>
    obtain ⟨hlive, htoken⟩ := update_token hop
    refine .ite (fun _ => .pure (by rwa [List.append_nil])) fun _ => ?_
    refine .advance_bind hlive (fun ts hts => ?_) (.pure ?_)
    · show headKind ts = t.kind
      rw [← hts.2]
      cases ts <;> rfl
    · rw [htoken]
      exact .updateAfter op ha
  · exact .pure (by rwa [List.append_nil])

theorem unaryRule (h : r.Writes) : Takes Anywhere (Rule.unary r) fun e => Written (expr e) := by
  refine .kind_bind fun k => ?_
  split
  · next op hop =>
    obtain ⟨hlive, htoken⟩ := unary_token hop
    refine .advance_bind hlive (fun _ hk => hk.2)
      (.andThen (.nested h.unary) fun a ks ha => .pure ?_)
    rw [htoken, List.append_nil]
    exact .unary op ha
  · next op _ hop =>
    obtain ⟨hlive, htoken⟩ := update_token hop
    refine .advance_bind hlive (fun _ hk => hk.2)
      (.andThen (.nested h.unary) fun a ks ha => .pure ?_)
    rw [htoken, List.append_nil]
    exact .updateBefore op ha
  · exact .anywhere (.andThen h.operand fun a ks ha => postfixUpdate ha)

/-! ### Members and calls -/

theorem operandRule (h : r.Writes) :
    Takes Anywhere (Rule.operand r) fun e => Written (expr e) := by
  refine .kind_bind fun k => .ite (fun hk => ?_) fun _ => ?_
  · refine .andThen (h.construction.weaken fun ts hts => ?_) fun base ks hb => h.suffixes true hb
    exact hts.2.trans hk
  · exact .anywhere (.andThen h.primary fun base ks hb => h.suffixes true hb)

theorem memberName :
    Takes Anywhere Rule.memberName fun name ks => ∃ k, k.NamesMember name ∧ ks = [k] := by
  refine .kind_bind fun k => ?_
  split
  · exact .advance_bind rfl (fun _ hk => hk.2) (.pure ⟨_, .inl rfl, rfl⟩)
  · next word _ hword =>
    exact .advance_bind (TokenKind.live_of_word hword) (fun _ hk => hk.2)
      (.pure ⟨_, .inr hword, rfl⟩)
  · exact .fail

theorem computedMember (h : r.Writes) :
    Takes (At (.punct .leftBracket)) (Rule.computedMember r) fun key ks =>
      ∃ property inner, key = .computed property ∧ Written (expr property) inner ∧
        ks = enclosed .leftBracket .rightBracket inner := by
  refine .advance_bind rfl (fun _ hk => hk) (.andThen h.sequence fun e ks he => .expect_bind ?_)
  exact .pure ⟨e, ks, rfl, he, rfl⟩

theorem suffix (h : r.Writes) (allowCalls : Bool) (object : Expr) :
    Takes Anywhere (Rule.suffix r allowCalls object) (WrittenBehind object) := by
  -- each link behind the object, and behind `?.` if that is there
  have member : ∀ optional, Takes Anywhere (do
      return some (.member object (.fixed (← Rule.memberName)) optional)) fun next ks =>
      WrittenBehind object next (.punct (if optional then .questionDot else .dot) :: ks) := by
    refine fun optional => .andThen memberName fun name ks hk => .pure ?_
    obtain ⟨k, hk, rfl⟩ := hk
    exact ⟨nofun, fun before ho => .memberName ho hk optional⟩
  have computed : ∀ optional, Takes (At (.punct .leftBracket)) (do
      return some (.member object (← Rule.computedMember r) optional)) fun next ks =>
      WrittenBehind object next (perhaps optional .questionDot ++ ks) := by
    refine fun optional => .andThen h.computedMember fun key ks hk => .pure ?_
    obtain ⟨property, inner, rfl, hp, rfl⟩ := hk
    rw [List.append_nil]
    exact ⟨List.append_ne_nil_of_right_ne_nil _ nofun,
      fun before ho => .memberComputed ho hp optional⟩
  have call : ∀ optional, Takes (At (.punct .leftParen)) (do
      return some (.call object (← r.arguments) optional)) fun next ks =>
      WrittenBehind object next (perhaps optional .questionDot ++ ks) := by
    refine fun optional => .andThen h.arguments fun as ks ha => .pure ?_
    obtain ⟨inner, ha, rfl⟩ := ha
    rw [List.append_nil]
    exact ⟨List.append_ne_nil_of_right_ne_nil _ nofun, fun before ho => .call ho ha optional⟩
  have tagged : Takes Anywhere (do
      return some (.tagged object (← r.templateLiteral))) (WrittenBehind object) := by
    refine .andThen h.templateLiteral fun q ks hq => .pure ?_
    obtain ⟨quasis, es, rfl, hq⟩ := hq
    rw [List.append_nil]
    exact ⟨hq.ne_nil rfl, fun before ho => .tagged ho hq⟩
  refine .kind_bind fun k => ?_
  split
  · exact .advance_bind rfl (fun _ hk => hk.2) (member false)
  · refine .ite (fun _ => .pure rfl) fun _ => .advance_bind rfl (fun _ hk => hk.2) ?_
    refine .kind_bind fun k => ?_
    split
    · exact (call true).weaken fun _ hk => hk.2
    · exact (computed true).weaken fun _ hk => hk.2
    · exact .anywhere (member true)
  · exact (computed false).weaken fun _ hk => hk.2
  · exact .ite (fun _ => .pure rfl) fun _ => (call false).weaken fun _ hk => hk.2
  · exact .anywhere tagged
  · exact .anywhere tagged
  · exact .pure rfl

theorem suffixesRule (h : r.Writes) (allowCalls : Bool) {object : Expr} {ks : List TokenKind}
    (ho : Written (expr object) ks) :
    Takes Anywhere (Rule.suffixes r allowCalls object) fun e ks' =>
      Written (expr e) (ks ++ ks') :=
  .chain_written (h.suffix allowCalls) ho

theorem constructionRule (h : r.Writes) :
    Takes (At (.keyword .new)) (Rule.construction r) fun e => Written (expr e) := by
  have callee : ∀ base ks, Written (expr base) ks → Takes Anywhere (do
      let callee ← r.suffixes false base
      if ← Parse.check .leftParen then return .new callee (← r.arguments)
      else return .new callee []) fun e ks' => Written (expr e) (.keyword .new :: (ks ++ ks')) := by
    refine fun base ks hb => .andThen (h.suffixes false hb) fun callee ks' hc => .check_bind ?_ ?_
    · refine .andThen (h.arguments.weaken fun _ hts => hts.2) fun as ks'' ha => .pure ?_
      obtain ⟨inner, ha, rfl⟩ := ha
      rw [List.append_nil, ← List.append_assoc]
      exact .new hc ha
    · refine .pure ?_
      rw [List.append_nil]
      exact .newAlone hc
  refine .nested (.advance_bind rfl (fun _ hk => hk) (.accept_bind ?_ ?_))
  · refine .kind_bind fun k => .ite (fun hk => ?_) fun _ => .fail
    refine .advance_bind (k := .identifier "target") rfl (fun ts hts => ?_) (.pure .newTarget)
    exact hts.2.trans hk
  · refine .kind_bind fun k => .ite (fun hk => ?_) fun _ => ?_
    · exact .andThen (h.construction.weaken fun ts hts => hts.2.trans hk) callee
    · exact .anywhere (.andThen h.primary callee)

theorem spreadable (h : r.Writes) :
    Takes Anywhere (Rule.spreadable r) fun e => Written (.phrase (.argument e)) := by
  refine .accept_bind ?_ (.anywhere ?_)
  · refine .andThen h.assignment fun e ks he => .pure ?_
    rw [List.append_nil]
    exact .spread he
  · exact h.assignment.mono (fun _ h => h) fun e ks he => .argument he

theorem argumentsRule (h : r.Writes) :
    Takes (At (.punct .leftParen)) (Rule.arguments r) fun as =>
      WrittenBetween .leftParen .rightParen (Part.arguments as) := by
  refine .advance_bind rfl (fun _ hk => hk) (.andThen (Q := fun as => Written (Part.arguments as))
    (.collect ?_) fun as ks ha => .expect_bind (.pure ⟨ks, ha, rfl⟩))
  refine .check_bind (.pure .listedNil) (.anywhere (.andThen h.spreadable fun a ks ha => ?_))
  refine .accept_bind (.pure fun as ks' has => ?_) (.pure ?_)
  · simpa [Part.arguments] using Spells.listedBefore rfl ha has
  · rw [List.append_nil]
    exact .listedLast ha

/-! ### Primary expressions -/

theorem nameOrArrow (h : r.Writes) (name : String) :
    Takes (At (.identifier name)) (Rule.nameOrArrow r name) fun e => Written (expr e) := by
  refine .ahead_bind fun next => ?_
  -- an arrow that was seen behind the name is next when that is taken
  refine .advance_then (B := fun ts => next.kind = .punct .arrow → At (.punct .arrow) ts) rfl
    (fun _ hts => hts.1) (fun t ts hts harrow => ?_) ?_
  · obtain ⟨hname, rfl⟩ := hts
    have hname : t.kind = .identifier name := hname
    rw [ahead_behind (by rw [harrow, hname]; nofun)] at harrow
    rw [← harrow]
    cases ts <;> rfl
  · refine .ite (fun harrow => ?_) fun _ => .pure (.identifier name)
    refine .advance_bind rfl (fun _ hts => hts harrow.1) ?_
    refine (h.arrowBody false [.identifier name]).mono (fun _ h => h) ?_
    rintro _ ks ⟨b, rfl, hb⟩
    exact .arrowName false name hb

theorem primaryRule (h : r.Writes) :
    Takes Anywhere (Rule.primary r) fun e => Written (expr e) := by
  have literal : ∀ value : Literal, Takes (At (Spelling.literal value)) (do
      Parse.advance
      return .literal value) fun e => Written (expr e) := by
    intro value
    refine .advance_bind ?_ (fun _ hk => hk) (.pure (.literal value))
    cases value with
    | boolean b => cases b <;> rfl
    | _ => rfl
  have template : Takes Anywhere r.templateLiteral fun e => Written (expr e) := by
    refine h.templateLiteral.mono (fun _ h => h) ?_
    rintro _ ks ⟨quasis, es, rfl, hq⟩
    exact .templateLiteral hq
  refine .kind_bind fun k => ?_
  simp only []
  split
  · next name =>
    refine .ite (fun hname => ?_) fun _ => (h.nameOrArrow name).weaken fun _ hk => hk.2
    subst hname
    -- if no function follows, the word is still ahead
    refine .bind (h.asyncFunction?.weaken fun _ hk => hk.2) fun f ks hf => ?_
    cases f with
    | none =>
      obtain rfl : ks = [] := hf
      refine (h.nameOrArrow "async").weaken ?_
      rintro ts ⟨taken, hnil, hk⟩
      obtain rfl := List.map_eq_nil_iff.1 hnil
      exact hk.2
    | some e =>
      refine .pure ?_
      rw [List.append_nil]
      exact hf
  · exact (literal (.number _)).weaken fun _ hk => hk.2
  · exact (literal (.bigint _)).weaken fun _ hk => hk.2
  · exact (literal (.string _)).weaken fun _ hk => hk.2
  · exact (literal (.regex _ _)).weaken fun _ hk => hk.2
  · exact (literal (.boolean true)).weaken fun _ hk => hk.2
  · exact (literal (.boolean false)).weaken fun _ hk => hk.2
  · exact (literal .null).weaken fun _ hk => hk.2
  · exact .advance_bind rfl (fun _ hk => hk.2) (.pure .this)
  · exact .advance_bind rfl (fun _ hk => hk.2) (.pure .super)
  · exact .anywhere template
  · exact .anywhere template
  · exact (h.parenthesized false).weaken fun _ hk => ⟨hk.2, nofun⟩
  · exact h.arrayLiteral.weaken fun _ hk => hk.2
  · exact h.objectLiteral.weaken fun _ hk => hk.2
  · exact (h.functionExpression false).weaken fun _ hk => hk.2
  · exact .fail

/-! ### Functions -/

theorem asyncFunctionRule (h : r.Writes) :
    Takes (At (.identifier "async")) (Rule.asyncFunction? r) fun f ks =>
      match f with
      | none => ks = []
      | some e => Written (expr e) ks := by
  refine .ahead_bind fun next => .ite (fun _ => .pure rfl) fun _ => ?_
  -- a token of another kind that was seen behind the word is next when that is taken
  have behind : ∀ {k : TokenKind} {t : Token} {ts : List Token}, next.kind = k →
      k ≠ .identifier "async" → t.kind = .identifier "async" →
      (Stream.mk (t :: ts) 0).ahead 1 = next → At k ts := by
    rintro k t ts hk hne ht rfl
    rw [ahead_behind (by rw [hk, ht]; exact hne)] at hk
    rw [← hk]
    cases ts <;> rfl
  split
  · next hkind =>
    refine .advance_then rfl (fun _ hts => hts.1)
      (fun t ts hts => behind hkind nofun hts.1 hts.2) ?_
    refine .andThen (h.functionExpression true) fun e ks he => .pure ?_
    rw [List.append_nil]
    exact he
  · next name hkind =>
    refine .ahead_bind fun third => .ite (fun harrow => ?_) fun _ => .pure rfl
    -- `async`, the name and the arrow are taken one after the other
    refine .advance_then (B := fun ts => At (.identifier name) ts ∧
      ((Stream.mk ts 0).ahead 1).kind = .punct .arrow) rfl (fun _ hts => hts.1.1) ?_ ?_
    · rintro t ts ⟨⟨hasync, hnext⟩, rfl⟩
      have hasync : t.kind = .identifier "async" := hasync
      rw [ahead_behind (by rw [harrow, hasync]; nofun)] at harrow
      refine ⟨?_, harrow⟩
      cases ts with
      | nil => exact nomatch harrow
      | cons u us =>
        rw [← hnext] at hkind
        exact hkind
    · refine .advance_then (B := At (.punct .arrow)) rfl (fun _ hts => hts.1) ?_ ?_
      · rintro t ts ⟨hname, harrow⟩
        have hname : t.kind = .identifier name := hname
        rw [ahead_behind (by rw [harrow, hname]; nofun)] at harrow
        rw [← harrow]
        cases ts <;> rfl
      · refine .advance_bind rfl (fun _ hts => hts) ?_
        refine .andThen (h.arrowBody true [.identifier name]) fun e ks he => .pure ?_
        obtain ⟨b, rfl, hb⟩ := he
        rw [List.append_nil]
        exact .arrowName true name hb
  · next hkind =>
    refine .get_bind fun u => .ite (fun harrow => ?_) fun _ => .pure rfl
    refine .advance_then (B := fun ts => At (.punct .leftParen) ts ∧
      (true = true → arrowFollows ts = true)) rfl (fun _ hts => hts.1.1) (fun t ts hts => ?_) ?_
    · obtain ⟨⟨hasync, hnext⟩, hu⟩ := hts
      rw [← hu] at harrow
      exact ⟨behind hkind nofun hasync hnext, fun _ => harrow⟩
    · refine .andThen (h.parenthesized true) fun e ks he => .pure ?_
      rw [List.append_nil]
      exact he
  · exact .pure rfl

theorem parenthesizedRule (h : r.Writes) (isAsync : Bool) :
    Takes (fun ts => At (.punct .leftParen) ts ∧ (isAsync = true → arrowFollows ts = true))
      (Rule.parenthesized r isAsync)
      fun e ks => Written (expr e) (kinds (async isAsync) ++ ks) := by
  refine .get_bind fun s => .ite (fun _ => ?_) fun hno => ?_
  · refine .anywhere (.andThen h.parameters fun ps ks hps => .expect_bind ?_)
    refine (h.arrowBody isAsync ps).mono (fun _ h => h) ?_
    rintro _ ks' ⟨b, rfl, hb⟩
    obtain ⟨inner, hps, rfl⟩ := hps
    exact .arrow isAsync hps hb
  · -- without an arrow nothing asynchronous begins here
    cases isAsync with
    | false =>
      refine .advance_bind rfl (fun _ hts => hts.1.1) (.andThen h.sequence fun e ks he => ?_)
      exact .expect_bind (.pure (.parentheses he))
    | true => exact fun u hu => absurd (hu.1.2 rfl) (by rw [hu.2]; exact hno)

theorem arrowBodyRule (h : r.Writes) (isAsync : Bool) (params : List Pattern) :
    Takes Anywhere (Rule.arrowBody r isAsync params) fun e ks =>
      ∃ b, e = .function .arrow isAsync none params b ∧ Written (.body b) ks := by
  refine .check_bind (.andThen .skipBlock fun _ ks hks => .pure ?_)
    (.anywhere (.andThen h.assignment fun e ks he => .pure ?_))
  · obtain ⟨inner, hinner, rfl⟩ := hks
    rw [List.append_nil]
    exact ⟨_, rfl, .bodyBlock hinner⟩
  · rw [List.append_nil]
    exact ⟨_, rfl, .bodyExpression he⟩

theorem functionName :
    Takes Anywhere Rule.functionName? fun name ks => ks = nameKinds name := by
  refine .kind_bind fun k => ?_
  split
  · exact .advance_bind rfl (fun _ hk => hk.2) (.pure rfl)
  · exact .pure rfl

/-- A block that was passed over. -/
theorem skippedBody : Takes Anywhere Rule.skipBlock fun _ => Written (.body .block) := by
  refine Takes.skipBlock.mono (fun _ h => h) ?_
  rintro _ ks ⟨inner, hinner, rfl⟩
  exact .bodyBlock hinner

theorem functionExpressionRule (h : r.Writes) (isAsync : Bool) :
    Takes (At (.keyword .function)) (Rule.functionExpression r isAsync) fun e ks =>
      Written (expr e) (kinds (async isAsync) ++ ks) := by
  have rest : ∀ generator, Takes Anywhere (do
      let name ← Rule.functionName?
      let params ← r.parameters
      Rule.skipBlock
      return .function .expression isAsync name params .block) fun e ks =>
      Written (expr e) (kinds (async isAsync) ++ .keyword .function ::
        (perhaps generator .star ++ ks)) := by
    refine fun generator => .andThen functionName fun name ks hname => ?_
    subst hname
    refine .andThen h.parameters fun ps ks hps => .andThen skippedBody fun _ ks' hb => .pure ?_
    obtain ⟨inner, hps, rfl⟩ := hps
    rw [List.append_nil]
    exact .function isAsync generator name hps hb
  refine .advance_bind rfl (fun _ hk => hk) ?_
  exact .accept_bind (rest true) (.anywhere (rest false))

/-- A parameter without `...`. -/
theorem binding_isRest {p : Pattern} {ks : List TokenKind}
    (h : Written (.phrase (.binding p)) ks) : (Phrase.parameter p).isRest = false := by
  cases h with
  | target h => cases h <;> rfl
  | default => rfl

theorem parametersRule (h : r.Writes) :
    Takes Anywhere (Rule.parameters r) fun ps =>
      WrittenBetween .leftParen .rightParen (Part.params ps) := by
  refine .expect_bind (.andThen (Q := fun ps => Written (Part.params ps)) (.collect ?_)
    fun ps ks hps => .expect_bind (.pure ⟨ks, hps, rfl⟩))
  refine .check_bind (.pure .listedNil) (.accept_bind ?_ (.anywhere ?_))
  · refine .andThen h.bindingTarget fun p ks hp => .pure ?_
    rw [List.append_nil]
    exact .listedLast (.rest hp)
  · refine .andThen h.bindingElement fun p ks hp =>
      .accept_bind (.pure fun ps ks' hps => ?_) (.pure ?_)
    · simpa [Part.params] using Spells.listedBefore (binding_isRest hp) (.binding hp) hps
    · rw [List.append_nil]
      exact .listedLast (.binding hp)

/-- A default behind a target, which a variable may be as well as a pattern. -/
theorem withDefault (h : r.Writes) (target : Pattern) :
    Takes Anywhere (Rule.withDefault r target) fun p ks =>
      (p = target ∧ ks = []) ∨
        ∃ e ks', p = .withDefault target e ∧ Written (expr e) ks' ∧ ks = .assign .plain :: ks' := by
  refine .kind_bind fun k => .ite (fun hk => ?_) fun _ => .pure (.inl ⟨rfl, rfl⟩)
  refine .advance_bind rfl (fun _ hts => hts.2.trans hk)
    (.andThen h.assignment fun e ks he => .pure ?_)
  exact .inr ⟨e, ks, rfl, he, by rw [List.append_nil]⟩

theorem bindingElementRule (h : r.Writes) :
    Takes Anywhere (Rule.bindingElement r) fun p => Written (.phrase (.binding p)) := by
  refine .andThen h.bindingTarget fun target ks ht => (h.withDefault target).mono (fun _ h => h) ?_
  rintro p ks' (⟨rfl, rfl⟩ | ⟨e, ks'', rfl, he, rfl⟩)
  · rw [List.append_nil]
    exact .target ht
  · exact .default ht he

theorem bindingTargetRule (h : r.Writes) :
    Takes Anywhere (Rule.bindingTarget r) fun p => Written (.phrase (.target p)) := by
  refine .kind_bind fun k => ?_
  split
  · next name => exact .advance_bind rfl (fun _ hts => hts.2) (.pure (.name name))
  · exact .nested (h.arrayPattern.weaken fun _ hts => hts.2)
  · exact .nested (h.objectPattern.weaken fun _ hts => hts.2)
  · exact .fail

theorem patternProperty (h : r.Writes) :
    Takes Anywhere (Rule.patternProperty r) fun p => Written (.phrase (.patternProperty p)) := by
  refine .accept_bind ?_ (.anywhere (.andThen h.propertyKey fun key ks hkey => ?_))
  · refine .andThen h.bindingTarget fun p ks hp => .pure ?_
    rw [List.append_nil]
    exact .patternRest hp
  · obtain ⟨key, shorthand⟩ := key
    obtain ⟨hkey, hname⟩ := hkey
    refine .accept_bind ?_ (.anywhere ?_)
    · refine .andThen h.bindingElement fun p ks' hp => .pure ?_
      rw [List.append_nil]
      exact .patternValue hkey hp
    · cases shorthand with
      | none => exact .fail
      | some name =>
        obtain ⟨rfl, rfl⟩ := hname name rfl
        refine .andThen (h.withDefault (.identifier name)) fun p ks' hp => .pure ?_
        rw [List.append_nil]
        obtain ⟨rfl, rfl⟩ | ⟨e, ks'', rfl, he, rfl⟩ := hp
        · exact .patternName name
        · exact .patternNameDefault name he

theorem objectPatternRule (h : r.Writes) :
    Takes (At (.punct .leftBrace)) (Rule.objectPattern r) fun p =>
      Written (.phrase (.target p)) := by
  refine .advance_bind rfl (fun _ hk => hk)
    (.andThen (Q := fun ps => Written (patternProperties ps)) (.collect ?_)
      fun ps ks hps => .expect_bind (.pure (.objectTarget hps)))
  refine .check_bind (.pure .listedNil) (.anywhere (.andThen h.patternProperty fun p ks hp => ?_))
  refine .accept_bind (.pure fun ps ks' hps => ?_) (.pure ?_)
  · simpa [patternProperties] using Spells.listedBefore rfl hp hps
  · rw [List.append_nil]
    exact .listedLast hp

/-- What is read of an array up to the bracket that closes it: elements and their
tokens, where no element is read if that bracket is next. -/
def ArrayFrom {α : Type} (phrase : α → Phrase) (ts : List Token) (es : List (Option α))
    (ks : List TokenKind) : Prop :=
  (headKind ts = .punct .rightBracket → es = []) ∧
    ∃ inner, Written (.listed (es.map (·.map phrase))) inner ∧ ks = inner ++ [.punct .rightBracket]

/-- What one round adds to an array, read from some tokens. -/
def ArrayRound {α : Type} (phrase : α → Phrase) (ts : List Token)
    (item : Parse.Item (Option α)) (ks : List TokenKind) : Prop :=
  match item with
  | .stop => ArrayFrom phrase ts [] ks
  | .last e => ArrayFrom phrase ts [e] ks
  | .more e => ∀ es ks', ArrayFrom phrase (ts.drop ks.length) es ks' →
      ArrayFrom phrase ts (e :: es) (ks ++ ks')

theorem ArrayRound.stop {α : Type} {phrase : α → Phrase} {ts : List Token} :
    ArrayRound phrase ts .stop [.punct .rightBracket] :=
  ⟨fun _ => rfl, [], .listedNil, rfl⟩

theorem ArrayRound.hole {α : Type} {phrase : α → Phrase} {ts : List Token}
    (hts : headKind ts ≠ .punct .rightBracket) :
    ArrayRound phrase ts (.more none) [.punct .comma] := by
  rintro es ks ⟨-, inner, hes, rfl⟩
  exact ⟨fun h => absurd h hts, .punct .comma :: inner, .listedHole hes, rfl⟩

/-- A round that reads one element and the comma behind it, which only the last one
may lack. -/
theorem arrayElement {α : Type} {phrase : α → Phrase} {element : Parse α} {wanted : Expected}
    {ts : List Token} (hwanted : wanted.mark = .comma)
    (he : Takes Anywhere element fun a ks =>
      Written (.phrase (phrase a)) ks ∧ (phrase a).isRest = false)
    (hts : headKind ts ≠ .punct .rightBracket) :
    Takes (· = ts) (do
      let a ← element
      if !(← Parse.check .rightBracket) then Parse.expect wanted
      return Parse.Item.more (some a)) (ArrayRound phrase ts) := by
  refine .bind he.anywhere fun a ks ha => .check_bind ?_ (.anywhere ?_)
  · -- the bracket is next, so nothing is added to this element
    refine .of_same (fun _ => rfl) ?_
    rintro s ⟨⟨taken, rfl, htaken⟩, hnext⟩ es ks' ⟨hes, inner, hinner, rfl⟩
    rw [← htaken, List.append_nil, kinds, List.length_map, List.drop_left] at hes
    obtain rfl := hes hnext
    cases hinner
    refine ⟨fun h => absurd h hts, kinds taken, .listedLast ha.1, ?_⟩
    rw [List.append_nil, List.nil_append]
  · refine .expect_bind (.pure ?_)
    rintro es ks' ⟨-, inner, hinner, rfl⟩
    refine ⟨fun h => absurd h hts, _, .listedBefore ha.2 ha.1 hinner, ?_⟩
    simp [hwanted]

/-- The elements of an array and the bracket that closes it. -/
theorem arrayElements {α : Type} (phrase : α → Phrase) {round : Parse (Parse.Item (Option α))}
    (hround : ∀ ts, Takes (· = ts) round (ArrayRound phrase ts)) :
    Takes Anywhere (Parse.collect round) fun es ks =>
      ∃ inner, Written (.listed (es.map (·.map phrase))) inner ∧
        ks = inner ++ [.punct .rightBracket] :=
  .each fun ts _ => (Takes.collect_from (C := ArrayFrom phrase) (fun ts =>
    (hround ts).mono (fun _ h => h) fun item ks h => by cases item <;> exact h) ts).mono
      (fun _ h => h) fun _ _ h => h.2

theorem arrayPatternRule (h : r.Writes) :
    Takes (At (.punct .leftBracket)) (Rule.arrayPattern r) fun p =>
      Written (.phrase (.target p)) := by
  refine .advance_bind rfl (fun _ hk => hk) (.andThen (arrayElements .parameter
    fun ts => .accept_bind (.pure .stop) (.each ?_)) fun es ks hes => .pure ?_)
  · rintro _ ⟨rfl, hclosing⟩
    refine .accept_bind (.pure (.hole hclosing)) (.accept_bind ?_ ?_)
    · refine .andThen h.bindingTarget fun p ks hp => .expect_bind (.pure ?_)
      exact ⟨fun hnext => absurd hnext hclosing, _, .listedLast (.rest hp), rfl⟩
    · refine (arrayElement rfl ?_ hclosing).weaken fun _ hts => hts.1.1
      exact h.bindingElement.mono (fun _ h => h) fun p ks hp => ⟨.binding hp, binding_isRest hp⟩
  · obtain ⟨inner, hes, rfl⟩ := hes
    rw [List.append_nil]
    exact .arrayTarget hes

theorem arrayLiteralRule (h : r.Writes) :
    Takes (At (.punct .leftBracket)) (Rule.arrayLiteral r) fun e => Written (expr e) := by
  refine .advance_bind rfl (fun _ hk => hk) (.andThen (arrayElements .argument
    fun ts => .accept_bind (.pure .stop) (.each ?_)) fun es ks hes => .pure ?_)
  · rintro _ ⟨rfl, hclosing⟩
    refine .accept_bind (.pure (.hole hclosing)) ?_
    refine (arrayElement rfl ?_ hclosing).weaken fun _ hts => hts.1
    exact h.spreadable.mono (fun _ h => h) fun e ks he => ⟨he, rfl⟩
  · obtain ⟨inner, hes, rfl⟩ := hes
    rw [List.append_nil]
    exact .array hes

theorem objectLiteralRule (h : r.Writes) :
    Takes (At (.punct .leftBrace)) (Rule.objectLiteral r) fun e => Written (expr e) := by
  refine .advance_bind rfl (fun _ hk => hk) (.andThen (Q := fun ps => Written (properties ps))
    (.collect ?_) fun ps ks hps => .expect_bind (.pure (.object hps)))
  refine .check_bind (.pure .listedNil) (.anywhere (.andThen h.objectMember fun p ks hp => ?_))
  refine .accept_bind (.pure fun ps ks' hps => ?_) (.pure ?_)
  · simpa [properties] using Spells.listedBefore rfl hp hps
  · rw [List.append_nil]
    exact .listedLast hp

/-! ### Members of objects -/

theorem modifier_kind {word : String} {kind : PropertyKind}
    (h : Rule.modifierKind? word = some kind) :
    kinds (modifier kind (kind = .method)) = [.identifier word] := by
  unfold Rule.modifierKind? at h
  split at h
  · next hword => cases h; rw [hword]; rfl
  split at h
  · next hword => cases h; rw [hword]; rfl
  split at h
  · next hword => cases h; rw [hword]; rfl
  · exact nomatch h

theorem modifierRule :
    Takes Anywhere Rule.modifier fun m ks =>
      ks = kinds (modifier m.1 m.2) ∧ (m.2 = true → m.1 = .method) := by
  have none : ∀ {A : List Token → Prop}, Takes A (pure (.init, false)) fun m ks =>
      ks = kinds (modifier m.1 m.2) ∧ (m.2 = true → m.1 = .method) := .pure ⟨rfl, nofun⟩
  refine .kind_bind fun k => ?_
  split
  · next word =>
    cases hkind : Rule.modifierKind? word with
    | none => exact none
    | some kind =>
      refine .ahead_bind fun t => .ite (fun _ => ?_) fun _ => none
      refine .advance_bind rfl (fun _ hts => hts.1.2) (.pure ⟨?_, of_decide_eq_true⟩)
      exact (modifier_kind hkind).symm
  · exact none

theorem shorthandValue (h : r.Writes) (name : String) :
    Takes Anywhere (Rule.shorthandValue r name) fun e ks =>
      Written (.phrase (.property (.keyed (.fixed name) e .init true)))
        (.identifier name :: ks) := by
  refine .kind_bind fun k => .ite (fun hk => ?_) fun _ => .pure (.shorthand name)
  refine .advance_bind rfl (fun _ hts => hts.2.trans hk)
    (.andThen h.assignment fun e ks he => .pure ?_)
  rw [List.append_nil]
  exact .shorthandDefault name he

theorem memberValue (h : r.Writes) {kind : PropertyKind} {isAsync : Bool} (generator : Bool)
    {key : Key} {shorthand : Option String} {ks : List TokenKind}
    (hasync : isAsync = true → kind = .method) (hkey : Written (.phrase (.key key)) ks)
    (hname : ∀ name, shorthand = some name → key = .fixed name ∧ ks = [.identifier name]) :
    Takes Anywhere (Rule.memberValue r kind isAsync generator key shorthand) fun p ks' =>
      Written (.phrase (.property p))
        (kinds (modifier kind isAsync) ++ (perhaps generator .star ++ (ks ++ ks'))) := by
  have method : Takes Anywhere (do
      let params ← r.parameters
      Rule.skipBlock
      let method := .function .expression isAsync (Rule.methodName? key) params .block
      return .keyed key method (if kind = .init then .method else kind) false) fun p ks' =>
      Written (.phrase (.property p))
        (kinds (modifier kind isAsync) ++ (perhaps generator .star ++ (ks ++ ks'))) := by
    refine .andThen h.parameters fun ps ks' hps => .andThen skippedBody fun _ ks'' hb => .pure ?_
    obtain ⟨inner, hps, rfl⟩ := hps
    rw [List.append_nil]
    by_cases hkind : kind = .init
    · -- nothing stands in front of a plain member, which is a method here
      subst hkind
      obtain rfl : isAsync = false := Bool.eq_false_iff.2 fun h => by cases hasync h
      exact .method generator (by rintro ⟨⟩) (by rintro ⟨⟩) hkey hps hb
    · rw [if_neg hkind]
      exact .method generator hkind hasync hkey hps hb
  refine .check_bind (.anywhere method) (.anywhere ?_)
  refine .ite (by rintro ⟨⟩) fun _ => .ite (fun _ => ?_) fun hplain => ?_
  · exact .andThen (Q := fun _ _ => False) .fail fun _ _ h => h.elim
  obtain ⟨hkind, hgenerator⟩ := not_or.1 hplain
  obtain rfl := Decidable.not_not.1 hkind
  obtain rfl := Bool.eq_false_iff.2 hgenerator
  obtain rfl : isAsync = false := Bool.eq_false_iff.2 fun h => by cases hasync h
  refine .accept_bind (.andThen h.assignment fun e ks' he => .pure ?_) (.anywhere ?_)
  · rw [List.append_nil]
    exact .value hkey he
  · cases shorthand with
    | none => exact .fail
    | some name =>
      obtain ⟨rfl, rfl⟩ := hname name rfl
      refine .andThen (h.shorthandValue name) fun e ks' he => .pure ?_
      rw [List.append_nil]
      exact he

theorem objectMemberRule (h : r.Writes) :
    Takes Anywhere (Rule.objectMember r) fun p => Written (.phrase (.property p)) := by
  refine .accept_bind ?_ (.anywhere ?_)
  · refine .andThen h.assignment fun e ks he => .pure ?_
    rw [List.append_nil]
    exact .spreadProperty he
  · refine .andThen modifierRule fun m ks hm => ?_
    obtain ⟨rfl, hasync⟩ := hm
    have behind : ∀ generator, Takes Anywhere (do
        let key ← r.propertyKey
        Rule.memberValue r m.1 m.2 generator key.1 key.2) fun p ks' =>
        Written (.phrase (.property p))
          (kinds (modifier m.1 m.2) ++ (perhaps generator .star ++ ks')) :=
      fun generator => .andThen h.propertyKey fun key ks hkey =>
        h.memberValue generator hasync hkey.1 hkey.2
    exact .accept_bind (behind true) (.anywhere (behind false))

/-- A token that is a key is a name of the property. -/
theorem fixedKey_names {k : TokenKind} {name : String} (h : Rule.fixedKey? k = some name) :
    k.isTerminal = false ∧ k.NamesProperty name := by
  unfold Rule.fixedKey? at h
  split at h
  · cases h; exact ⟨rfl, .inr (.inl rfl)⟩
  · next value => cases h; exact ⟨rfl, .inr (.inr (.inr ⟨value, rfl, rfl⟩))⟩
  · cases h; exact ⟨rfl, .inr (.inr (.inl rfl))⟩
  · exact ⟨TokenKind.live_of_word h, .inl (.inr h)⟩

theorem propertyKeyRule (h : r.Writes) :
    Takes Anywhere (Rule.propertyKey r) fun k ks =>
      Written (.phrase (.key k.1)) ks ∧
        ∀ name, k.2 = some name → k.1 = .fixed name ∧ ks = [.identifier name] := by
  refine .kind_bind fun k => ?_
  split
  · next name =>
    refine .advance_bind rfl (fun _ hts => hts.2) (.pure ⟨.fixed (.inl (.inl rfl)), ?_⟩)
    rintro _ ⟨⟩
    exact ⟨rfl, rfl⟩
  · refine .advance_bind rfl (fun _ hts => hts.2) (.andThen h.assignment fun e ks he => ?_)
    exact .expect_bind (.pure ⟨.computed he, nofun⟩)
  · cases hkey : Rule.fixedKey? k with
    | none => exact .fail
    | some name =>
      obtain ⟨hlive, hk⟩ := fixedKey_names hkey
      exact .advance_bind hlive (fun _ hts => hts.2) (.pure ⟨.fixed hk, nofun⟩)

/-! ### Templates -/

/-- A substitution is written with the piece behind it, which may be the last one. -/
theorem substitutionRule (h : r.Writes) : Takes Anywhere (Rule.substitution r) fun item ks =>
    match item with
    | .stop => False
    | .last part => Written (.pieces [part.2] [part.1]) ks
    | .more part => ∀ quasis es ks', Written (.pieces quasis es) ks' →
        Written (.pieces (part.2 :: quasis) (part.1 :: es)) (ks ++ ks') := by
  refine .andThen h.sequence fun e ks he => .kind_bind fun k => ?_
  split
  · next cooked =>
    refine .advance_bind rfl (fun _ hts => hts.2) (.pure fun quasis es ks' hes => ?_)
    rw [List.append_assoc]
    exact .piecesBefore cooked he hes
  · next cooked =>
    exact .advance_bind rfl (fun _ hts => hts.2) (.pure (.piecesLast cooked he))
  · exact .fail

theorem templateLiteralRule (h : r.Writes) :
    Takes Anywhere (Rule.templateLiteral r) fun e ks =>
      ∃ quasis es, e = .template quasis es ∧ Written (.template quasis es) ks := by
  refine .kind_bind fun k => ?_
  split
  · next cooked =>
    exact .advance_bind rfl (fun _ hts => hts.2) (.pure ⟨_, _, rfl, .templateWhole cooked⟩)
  · next cooked =>
    refine .advance_bind rfl (fun _ hts => hts.2)
      (.andThen (Q := fun parts => Written (.pieces (parts.map (·.2)) (parts.map (·.1))))
        (.collect ?_) fun parts ks hparts => ?_)
    · refine h.substitutionRule.mono (fun _ h => h) fun item ks hitem => ?_
      cases item with
      | stop => exact hitem.elim
      | last part => exact hitem
      | more part => exact fun parts ks' hparts => hitem _ _ ks' hparts
    · refine .pure ⟨_, _, rfl, ?_⟩
      rw [List.append_nil]
      exact .templateParts cooked hparts
  · exact .fail

/-! ### The grammar -/

/-- Rules that call rules that read what is written do so too. -/
theorem step (h : r.Writes) : r.step.Writes where
  sequence := h.sequenceRule
  assignment := h.assignmentRule
  conditional := h.conditionalRule
  binary := h.binaryRule
  exponent := h.exponentRule
  unary := h.unaryRule
  operand := h.operandRule
  suffixes := h.suffixesRule
  construction := h.constructionRule
  arguments := h.argumentsRule
  primary := h.primaryRule
  asyncFunction? := h.asyncFunctionRule
  parenthesized := h.parenthesizedRule
  arrowBody := h.arrowBodyRule
  functionExpression := h.functionExpressionRule
  parameters := h.parametersRule
  bindingElement := h.bindingElementRule
  bindingTarget := h.bindingTargetRule
  arrayPattern := h.arrayPatternRule
  objectPattern := h.objectPatternRule
  arrayLiteral := h.arrayLiteralRule
  objectLiteral := h.objectLiteralRule
  objectMember := h.objectMemberRule
  propertyKey := h.propertyKeyRule
  templateLiteral := h.templateLiteralRule

theorem exhausted : Rules.exhausted.Writes := by
  constructor
  all_goals
    intros
    exact .fail

end Rules.Writes

/-- All rules of the grammar read what is written. -/
theorem rules_write (n : Nat) : (Grammar.rules n).Writes := by
  induction n with
  | zero => exact .exhausted
  | succ n ih => exact ih.step

/-- Whatever `Parse.expression` takes, it takes as the grammar does. -/
theorem expression_takes : Takes Anywhere Parse.expression fun e => Written (expr e) := by
  refine .andThen (rules_write _).sequence fun e ks he => .kind_bind fun k => ?_
  split
  · exact .fail
  · exact .pure (by rwa [List.append_nil])

/-- An expression is read from tokens that are a spelling of it, in which the bodies
that were passed over have nested braces; no terminal token is among them. -/
theorem expression_written (s t : Stream) (e : Expr) (h : Parse.expression.run s = (.ok e, t)) :
    ∃ taken, s.rest = taken ++ t.rest ∧ Live taken ∧
      Spells (Nested braces) (expr e) (kinds taken) :=
  expression_takes.run_ok trivial h

/-- A construction without arguments, an arrow function, a hole and a trailing comma. -/
theorem expression_written_new :
    ∃ e t, Parse.expression.run { rest := tokenize "new (x => [x, , ...y,]) ; z" } = (.ok e, t) ∧
      ∃ taken, tokenize "new (x => [x, , ...y,]) ; z" = taken ++ t.rest ∧ Live taken ∧
        Spells (Nested braces) (expr e) (kinds taken) := by
  have hreads : (Parse.expression.run { rest := tokenize "new (x => [x, , ...y,]) ; z" }).1.isOk =
      true := by decide +kernel
  cases hrun : Parse.expression.run { rest := tokenize "new (x => [x, , ...y,]) ; z" } with
  | mk result t =>
    rw [hrun] at hreads
    cases result with
    | error error => exact nomatch hreads
    | ok e => exact ⟨e, t, rfl, expression_written { rest := tokenize _ } t e hrun⟩

end TemplateVars
