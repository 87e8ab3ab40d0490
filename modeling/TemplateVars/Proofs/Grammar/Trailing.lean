/-
What stands behind an expression does not change how it is read.

The main result is `parse_append`: if a text is read as an expression to its end, the
same expression is read with a line behind it that begins with a separator and goes on
with anything at all, be it unterminated strings, stray brackets or `=>`.  The brackets
in the function bodies that are passed over have to be nested.

* `Rules.Keeps.step` — each rule does in front of a separator what it does in front of
  the end, if those it calls do;
* `complete_split` — the tokens of an expression that is read to the end of its text.

Design notes: the search for `=>` behind a group goes as far as the tokens do, but the
nesting of brackets stops it at the separator; that of the bodies is a hypothesis, that
of the rest comes from its spelling.  A comma separates what it stands between and goes
on with the expressions around it, so they keep their results in front of one only within
other marks.  Two things need more than the rules that are called.  A member of an object
may be a name, and a name in front of a separator may have a value, so members keep their
results only with a token behind them.  An array looks for its end before its next element,
and would end at a separator; it is known from `Rules.Writes` that an element takes a token.
-/
import TemplateVars.Proofs.Grammar.Alike
import TemplateVars.Proofs.Grammar.Soundness

namespace TemplateVars

open Takes (Anywhere At)

/-- Places at which there are tokens. -/
def Somewhere (us : List Token) : Prop := us ≠ []

theorem somewhere {k : TokenKind} {us : List Token} (hk : k.isTerminal = false) (h : At k us) :
    Somewhere us := by
  rintro rfl
  obtain rfl : TokenKind.eof = k := h
  exact nomatch hk

/-- Whether each rule does in front of the separator what it does in front of the end.
What is known of a member of an object is known only if more tokens follow it: a name
at the very end may go on with `:`. -/
structure Rules.Keeps (E : Endings) (r : Rules) : Prop where
  sequence {within : Bool} (hcomma : within = true ∨ E.next.kind ≠ .punct .comma) :
    E.Keeps within Anywhere r.sequence
  assignment {within : Bool} : E.Keeps within Anywhere r.assignment
  conditional {within : Bool} : E.Keeps within Anywhere r.conditional
  binary {within : Bool} (minPrecedence : Nat) : E.Keeps within Anywhere (r.binary minPrecedence)
  exponent {within : Bool} : E.Keeps within Anywhere r.exponent
  unary {within : Bool} : E.Keeps within Anywhere r.unary
  operand {within : Bool} : E.Keeps within Anywhere r.operand
  suffixes {within : Bool} (allowCalls : Bool) (object : Expr) :
    E.Keeps within Anywhere (r.suffixes allowCalls object)
  construction {within : Bool} : E.Keeps within Somewhere r.construction
  arguments {within : Bool} : E.Keeps within Somewhere r.arguments
  primary {within : Bool} : E.Keeps within Anywhere r.primary
  asyncFunction? {within : Bool} : E.Keeps within (At (.identifier "async")) r.asyncFunction?
  parenthesized {within : Bool} (isAsync : Bool) :
    E.Keeps within Somewhere (r.parenthesized isAsync)
  arrowBody {within : Bool} (isAsync : Bool) (params : List Pattern) :
    E.Keeps within Anywhere (r.arrowBody isAsync params)
  functionExpression {within : Bool} (isAsync : Bool) :
    E.Keeps within Somewhere (r.functionExpression isAsync)
  parameters {within : Bool} : E.Keeps within Anywhere r.parameters
  bindingElement {within : Bool} : E.Keeps within Anywhere r.bindingElement
  bindingTarget {within : Bool} : E.Keeps within Anywhere r.bindingTarget
  arrayPattern {within : Bool} : E.Keeps within Somewhere r.arrayPattern
  objectPattern {within : Bool} : E.Keeps within Somewhere r.objectPattern
  arrayLiteral {within : Bool} : E.Keeps within Somewhere r.arrayLiteral
  objectLiteral {within : Bool} : E.Keeps within Somewhere r.objectLiteral
  objectMember : E.Keeps true Anywhere r.objectMember
  propertyKey {within : Bool} : E.Keeps within Anywhere r.propertyKey
  templateLiteral {within : Bool} : E.Keeps within Anywhere r.templateLiteral

namespace Rules.Keeps

variable {E : Endings} {r : Rules} {within : Bool}

/-! ### Operators -/

theorem sequenceRule (h : r.Keeps E) (hcomma : within = true ∨ E.next.kind ≠ .punct .comma) :
    E.Keeps within Anywhere (Rule.sequence r) := by
  refine .andThen h.assignment fun first => .andThen (.collect ?_) fun rest => ?_
  · refine .accept_bind ?_ (.andThen h.assignment fun e => .pure) .pure
    exact hcomma.imp_right .inl
  · split <;> exact .pure

theorem assignmentRule (h : r.Keeps E) : E.Keeps within Anywhere (Rule.assignment r) := by
  refine .nested (.andThen h.conditional fun target => .kind_bind_other (fun k => ?_)
    (separators_all (fun _ => rfl) (fun _ => rfl) rfl rfl rfl rfl rfl rfl))
  split
  · exact .advance_bind (fun h => nomatch h.2) (.andThen h.assignment fun value => .pure)
  · exact .pure

theorem conditionalRule (h : r.Keeps E) : E.Keeps within Anywhere (Rule.conditional r) := by
  refine .andThen (h.binary 1) fun test => .accept_bind (E.next_unmarked (by decide)) ?_ .pure
  exact .andThen h.assignment fun _ => .expect_bind (.andThen h.assignment fun _ => .pure)

theorem binaryRule (h : r.Keeps E) (minPrecedence : Nat) :
    E.Keeps within Anywhere (Rule.binary r minPrecedence) := by
  refine .andThen h.exponent fun first => .chain (fun left => .kind_bind_other (fun k => ?_)
    (separators_all (fun _ => rfl) (fun _ => rfl) rfl rfl rfl rfl rfl rfl)) first
  split
  · next precedence op hop =>
    refine .ite Iff.rfl (fun _ => .pure) fun _ => .advance_bind ?_ ?_
    · exact fun hk => somewhere (TokenKind.live_of_infix hop) hk.2 rfl
    · exact .andThen (h.binary _) fun right => .pure
  · exact .pure

theorem exponentRule (h : r.Keeps E) : E.Keeps within Anywhere (Rule.exponent r) := by
  refine .andThen h.unary fun base => .accept_bind (E.next_unmarked (by decide)) ?_ .pure
  exact .andThen (.nested h.exponent) fun _ => .pure

theorem postfixUpdate (argument : Expr) :
    E.Keeps within Anywhere (Rule.postfixUpdate argument) := by
  refine .ahead_bind (fun us _ => Nat.zero_le _) (fun t ht => ?_) ?_
  · split
    · refine .ite Iff.rfl (fun _ => .pure) fun _ => .advance_bind (fun h => nomatch h.2) .pure
    · exact .pure
  · have hno : ∀ k : TokenKind, k.Separates → k.updateOperator? = none :=
      separators_all (fun _ => rfl) (fun _ => rfl) rfl rfl rfl rfl rfl rfl
    have heof : TokenKind.eof.updateOperator? = none := rfl
    simp only [E.final_eof, heof, hno _ E.next_separates]
    exact .pure

theorem unaryRule (h : r.Keeps E) : E.Keeps within Anywhere (Rule.unary r) := by
  refine .kind_bind_other (fun k => ?_)
    (separators_all (fun _ => rfl) (fun _ => rfl) rfl rfl rfl rfl rfl rfl)
  split
  · next op hop =>
    have hlive := (Rules.Writes.unary_token hop).1
    exact .advance_bind (fun hk => somewhere hlive hk.2 rfl)
      (.andThen (.nested h.unary) fun _ => .pure)
  · next op _ hop =>
    have hlive := (Rules.Writes.update_token hop).1
    exact .advance_bind (fun hk => somewhere hlive hk.2 rfl)
      (.andThen (.nested h.unary) fun _ => .pure)
  · exact .anywhere (.andThen h.operand fun argument => postfixUpdate argument)

/-! ### Members and calls -/

theorem operandRule (h : r.Keeps E) : E.Keeps within Anywhere (Rule.operand r) := by
  refine .kind_bind_other (fun k => .ite Iff.rfl (fun hk => ?_) fun _ => ?_)
    (separators_all (fun _ => rfl) (fun _ => rfl) rfl rfl rfl rfl rfl rfl)
  · subst hk
    exact .andThen (h.construction.weaken fun us hus => somewhere rfl hus.2) fun base =>
      h.suffixes true base
  · exact .anywhere (.andThen h.primary fun base => h.suffixes true base)

theorem memberName : E.Keeps within Anywhere Rule.memberName := by
  refine .kind_bind (fun k hk => ?_) .fail
  split
  · exact .advance_bind (fun h => nomatch h.2) .pure
  · exact .advance_bind (fun h => somewhere hk h.2 rfl) .pure
  · exact .fail

theorem computedMember (h : r.Keeps E) : E.Keeps within Somewhere (Rule.computedMember r) :=
  .advance_bind (fun h => h rfl) (.before_expect (h.sequence (.inl rfl)) fun _ => .pure)

theorem suffix (h : r.Keeps E) (allowCalls : Bool) (object : Expr) :
    E.Keeps within Anywhere (Rule.suffix r allowCalls object) := by
  -- each link behind the object, and behind `?.` if that is there
  have member : ∀ optional, E.Keeps within Anywhere (do
      return some (Expr.member object (.fixed (← Rule.memberName)) optional)) :=
    fun optional => .andThen memberName fun name => .pure
  have computed : ∀ optional, E.Keeps within (At (.punct .leftBracket)) (do
      return some (Expr.member object (← Rule.computedMember r) optional)) :=
    fun optional => .andThen (h.computedMember.weaken fun us hus => somewhere rfl hus)
      fun key => .pure
  have call : ∀ optional, E.Keeps within (At (.punct .leftParen)) (do
      return some (Expr.call object (← r.arguments) optional)) :=
    fun optional => .andThen (h.arguments.weaken fun us hus => somewhere rfl hus) fun as => .pure
  have tagged : E.Keeps within Anywhere (do
      return some (Expr.tagged object (← r.templateLiteral))) :=
    .andThen h.templateLiteral fun q => .pure
  refine .kind_bind_other (fun k => ?_)
    (separators_all (fun _ => rfl) (fun _ => rfl) rfl rfl rfl rfl rfl rfl)
  split
  · exact .advance_bind (fun h => nomatch h.2) (member false)
  · refine .ite Iff.rfl (fun _ => .pure) fun _ => .advance_bind (fun h => nomatch h.2) ?_
    refine .kind_bind_other (fun k => ?_)
      (separators_all (fun _ => rfl) (fun _ => rfl) rfl rfl rfl rfl rfl rfl)
    split
    · exact (call true).weaken fun us hus => hus.2
    · exact (computed true).weaken fun us hus => hus.2
    · exact .anywhere (member true)
  · exact (computed false).weaken fun us hus => hus.2
  · exact .ite Iff.rfl (fun _ => .pure) fun _ => (call false).weaken fun us hus => hus.2
  · exact .anywhere tagged
  · exact .anywhere tagged
  · exact .pure

theorem suffixesRule (h : r.Keeps E) (allowCalls : Bool) (object : Expr) :
    E.Keeps within Anywhere (Rule.suffixes r allowCalls object) :=
  .chain (h.suffix allowCalls) object

theorem constructionRule (h : r.Keeps E) : E.Keeps within Somewhere (Rule.construction r) := by
  have callee : ∀ base, E.Keeps within Anywhere (do
      let callee ← r.suffixes false base
      if ← Parse.check .leftParen then return Expr.new callee (← r.arguments)
      else return Expr.new callee []) := by
    refine fun base => .andThen (h.suffixes false base) fun callee => ?_
    refine .check_bind (E.next_unmarked (by decide)) ?_ .pure
    exact .andThen (h.arguments.weaken fun us hus => somewhere rfl hus.2) fun as => .pure
  refine .nested (.advance_bind (fun h => h rfl) (.accept_bind (E.next_unmarked (by decide)) ?_ ?_))
  · refine .kind_bind (fun k hk => .ite Iff.rfl (fun _ => ?_) fun _ => .fail) .fail
    exact .advance_bind (fun h => somewhere hk h.2 rfl) .pure
  · refine .kind_bind_other (fun k => .ite Iff.rfl (fun hk => ?_) fun _ => ?_)
      (separators_all (fun _ => rfl) (fun _ => rfl) rfl rfl rfl rfl rfl rfl)
    · subst hk
      exact .andThen (h.construction.weaken fun us hus => somewhere rfl hus.2) callee
    · exact .anywhere (.andThen h.primary callee)

theorem spreadable (h : r.Keeps E) : E.Keeps within Anywhere (Rule.spreadable r) :=
  .accept_bind (E.next_unmarked (by decide)) (.andThen h.assignment fun e => .pure) h.assignment

theorem argumentsRule (h : r.Keeps E) : E.Keeps within Somewhere (Rule.arguments r) := by
  refine .advance_bind (fun h => h rfl) (.before_expect (.collect ?_) fun as => .pure)
  refine .check_bind (.inl rfl) .pure (.andThen h.spreadable fun a => ?_)
  exact .accept_bind (.inl rfl) .pure .pure

/-! ### Primary expressions -/

/-- If no function begins with `async`, nothing is taken. -/
theorem async_none (hw : r.Writes) {us vs : List Token} {d d' : Nat}
    (hus : At (.identifier "async") us)
    (hrun : r.asyncFunction? ⟨E.short us, d⟩ = .ok none ⟨E.short vs, d'⟩) : us = vs := by
  have hat : At (.identifier "async") (E.short us) := by
    cases us with
    | nil => exact nomatch hus
    | cons u us => exact hus
  have h := hw.asyncFunction? ⟨E.short us, d⟩ hat
  rw [hrun] at h
  obtain ⟨taken, hrest, -, hnone⟩ := h
  obtain rfl : taken = [] := List.map_eq_nil_iff.1 hnone
  exact List.append_cancel_right hrest

theorem nameOrArrow (h : r.Keeps E) (name : String) :
    E.Keeps within Somewhere (Rule.nameOrArrow r name) := by
  refine .ahead_bind (fun us hus => List.length_pos_iff.2 hus) (fun t ht => ?_) ?_
  · -- the token behind the name is among the tokens
    refine .advance_then (fun h => h.1 rfl) (.ite Iff.rfl (fun _ => ?_) fun _ => .pure)
    refine .advance_bind ?_ (h.arrowBody false [.identifier name])
    rintro ⟨u, -, hnext⟩
    exact nomatch hnext
  · refine .advance_then (fun h => h.1 rfl) (.ite ?_ (fun harrow => ?_) fun _ => .pure)
    · exact ⟨fun h => absurd h.1 (E.final_ne _), fun h => absurd h.1 (E.next_ne (by decide))⟩
    · exact absurd harrow.1 (E.final_ne _)

theorem primaryRule (h : r.Keeps E) (hw : r.Writes) :
    E.Keeps within Anywhere (Rule.primary r) := by
  have literal : ∀ {k : TokenKind} (e : Expr), k.isTerminal = false →
      E.Keeps within (fun us => Anywhere us ∧ At k us) (do
        Parse.advance
        return e) := fun e hk => .advance_bind (fun h => somewhere hk h.2 rfl) .pure
  refine .kind_bind (fun k hk => ?_) .fail
  simp only []
  split
  · next name =>
    refine .ite Iff.rfl (fun hname => ?_) fun _ =>
      (h.nameOrArrow name).weaken fun us hus => somewhere rfl hus.2
    subst hname
    refine .bind (h.asyncFunction?.weaken fun us hus => hus.2) fun f => ?_
    cases f with
    | some e => exact .pure
    | none =>
      -- if no function follows, the word is still ahead
      refine (h.nameOrArrow "async").weaken ?_
      rintro vs ⟨us, d, d', hus, hrun⟩
      exact async_none hw hus.2 hrun ▸ somewhere rfl hus.2
  · exact literal _ rfl
  · exact literal _ rfl
  · exact literal _ rfl
  · exact literal _ rfl
  · exact literal _ rfl
  · exact literal _ rfl
  · exact literal _ rfl
  · exact literal _ rfl
  · exact literal _ rfl
  · exact .anywhere h.templateLiteral
  · exact .anywhere h.templateLiteral
  · exact (h.parenthesized false).weaken fun us hus => somewhere rfl hus.2
  · exact h.arrayLiteral.weaken fun us hus => somewhere rfl hus.2
  · exact h.objectLiteral.weaken fun us hus => somewhere rfl hus.2
  · exact (h.functionExpression false).weaken fun us hus => somewhere rfl hus.2
  · exact .fail

/-! ### Functions -/

theorem asyncFunctionRule (h : r.Keeps E) :
    E.Keeps within (At (.identifier "async")) (Rule.asyncFunction? r) := by
  refine .ahead_bind (fun us hus => List.length_pos_iff.2 (somewhere rfl hus)) (fun t ht => ?_) ?_
  · -- the token behind the word is among the tokens
    have behind : ∀ us, (∃ u, At (.identifier "async") (u :: us) ∧ (u :: us)[1]? = some t) →
        Somewhere us := by
      rintro us ⟨u, -, hnext⟩ rfl
      exact nomatch hnext
    refine .ite Iff.rfl (fun _ => .pure) fun _ => ?_
    split
    · refine .advance_then (fun h => nomatch h.2) (.andThen ?_ fun e => .pure)
      exact (h.functionExpression true).weaken behind
    · next name hname =>
      refine .ahead_bind (fun us hus => ?_)
        (fun third hthird => .ite Iff.rfl (fun _ => ?_) fun _ => .pure) ?_
      · exact (List.getElem?_eq_some_iff.1 hus.2).1
      · -- `async`, the name and the arrow are taken one after the other
        refine .advance_then (fun h => nomatch h.2) (.advance_then ?_ (.advance_bind ?_ ?_))
        · rintro ⟨u, -, hthird⟩
          exact nomatch hthird
        · rintro ⟨v, u, -, hthird⟩
          exact nomatch hthird
        · exact .andThen (h.arrowBody true [.identifier name]) fun e => .pure
      · refine .ite ?_ (fun harrow => absurd harrow (E.final_ne _)) fun _ => .pure
        exact ⟨fun h => absurd h (E.final_ne _), fun h => absurd h (E.next_ne (by decide))⟩
    · refine .get_bind fun us d hagrees hus => ?_
      cases us with
      | nil => exact nomatch hus.2
      | cons u us =>
        have harrow := hagrees.arrow us (List.suffix_cons u us)
        refine .ite (Eq.congr_left harrow) (fun _ => .advance_then nofun ?_) fun _ => .pure
        refine .andThen ((h.parenthesized true).weaken ?_) fun e => .pure
        rintro vs ⟨v, hvs⟩
        obtain rfl : vs = us := (List.cons.inj hvs).2
        exact behind vs ⟨u, hus⟩
    · exact .pure
  · -- a word at the end begins no function, whatever follows it
    have hnone : E.Keeps within (fun us => At (.identifier "async") us ∧ us.length = 1)
      (pure (none : Option Expr)) := .pure
    have hseparates := E.next_separates
    simp only [E.final_eof, ite_self]
    generalize E.next.kind = k at hseparates
    revert k
    refine separators_all (fun cooked => ?_) (fun cooked => ?_) ?_ ?_ ?_ ?_ ?_ ?_
    all_goals
      simp only [ite_self]
      exact hnone

theorem parenthesizedRule (h : r.Keeps E) (isAsync : Bool) :
    E.Keeps within Somewhere (Rule.parenthesized r isAsync) := by
  refine .get_bind fun us d hagrees hus => ?_
  have harrow := hagrees.arrow us (List.suffix_refl us)
  refine .ite (Eq.congr_left harrow) (fun _ => ?_) fun _ => ?_
  · exact .anywhere (.andThen h.parameters fun params => .expect_bind (h.arrowBody isAsync params))
  · exact .advance_bind (fun hnil => hus hnil.symm)
      (.before_expect (h.sequence (.inl rfl)) fun inner => .pure)

theorem arrowBodyRule (h : r.Keeps E) (isAsync : Bool) (params : List Pattern) :
    E.Keeps within Anywhere (Rule.arrowBody r isAsync params) := by
  refine .check_bind (E.next_unmarked (by decide)) (.andThen .skipBlock fun _ => .pure) ?_
  exact .andThen h.assignment fun e => .pure

theorem functionName : E.Keeps within Anywhere Rule.functionName? := by
  refine .kind_bind_other (fun k => ?_)
    (separators_all (fun _ => rfl) (fun _ => rfl) rfl rfl rfl rfl rfl rfl)
  split
  · exact .advance_bind (fun h => nomatch h.2) .pure
  · exact .pure

theorem functionExpressionRule (h : r.Keeps E) (isAsync : Bool) :
    E.Keeps within Somewhere (Rule.functionExpression r isAsync) := by
  have rest : E.Keeps within Anywhere (do
      let name ← Rule.functionName?
      let params ← r.parameters
      Rule.skipBlock
      return Expr.function .expression isAsync name params .block) :=
    .andThen functionName fun name => .andThen h.parameters fun params =>
      .andThen .skipBlock fun _ => .pure
  exact .advance_bind (fun h => h rfl) (.accept_bind (E.next_unmarked (by decide)) rest rest)

theorem parametersRule (h : r.Keeps E) : E.Keeps within Anywhere (Rule.parameters r) := by
  refine .expect_bind (.before_expect (.collect ?_) fun params => .pure)
  refine .check_bind (.inl rfl) .pure (.accept_bind (E.next_unmarked (by decide)) ?_ ?_)
  · exact .andThen h.bindingTarget fun p => .pure
  · refine .andThen h.bindingElement fun p => ?_
    exact .accept_bind (.inl rfl) .pure .pure

theorem withDefault (h : r.Keeps E) (target : Pattern) :
    E.Keeps within Anywhere (Rule.withDefault r target) := by
  refine .kind_bind_other (fun k => .ite Iff.rfl (fun hk => ?_) fun _ => .pure)
    (separators_all (fun _ => rfl) (fun _ => rfl) rfl rfl rfl rfl rfl rfl)
  subst hk
  exact .advance_bind (fun h => nomatch h.2) (.andThen h.assignment fun e => .pure)

theorem bindingElementRule (h : r.Keeps E) : E.Keeps within Anywhere (Rule.bindingElement r) :=
  .andThen h.bindingTarget fun target => h.withDefault target

theorem bindingTargetRule (h : r.Keeps E) : E.Keeps within Anywhere (Rule.bindingTarget r) := by
  refine .kind_bind (fun k hk => ?_) .fail
  split
  · exact .advance_bind (fun h => nomatch h.2) .pure
  · exact .nested (h.arrayPattern.weaken fun us hus => somewhere rfl hus.2)
  · exact .nested (h.objectPattern.weaken fun us hus => somewhere rfl hus.2)
  · exact .fail

/-- A property of a pattern, with something behind it: a name may go on with `:`. -/
theorem patternProperty (h : r.Keeps E) : E.Keeps true Anywhere (Rule.patternProperty r) := by
  refine .accept_bind (E.next_unmarked (by decide)) (.andThen h.bindingTarget fun p => .pure)
    (.andThen h.propertyKey fun key => ?_)
  obtain ⟨key, shorthand⟩ := key
  refine .accept_bind (.inl rfl) (.andThen h.bindingElement fun p => .pure) ?_
  cases shorthand with
  | none => exact .fail
  | some name => exact .andThen (h.withDefault (.identifier name)) fun p => .pure

theorem objectPatternRule (h : r.Keeps E) : E.Keeps within Somewhere (Rule.objectPattern r) := by
  refine .advance_bind (fun h => h rfl) (.before_expect (.collect ?_) fun properties => .pure)
  refine .check_bind (.inl rfl) .pure (.andThen h.patternProperty fun p => ?_)
  exact .accept_bind (.inl rfl) .pure .pure

/-- An element of an array and the comma behind it, which only the last one may lack. -/
theorem arrayElement {α : Type} {element : Parse α} {wanted : Expected} {A : List Token → Prop}
    (he : E.Keeps within Anywhere element) :
    E.Keeps within A (do
      let a ← element
      if !(← Parse.check .rightBracket) then Parse.expect wanted
      return Parse.Item.more (some a)) := by
  refine .anywhere (.andThen he fun a => .of_stuck (.check_bind (.bind .expect)) ?_)
  exact .check_bind (.inr (.inr fun h => h.2 rfl)) .pure (.anywhere (.expect_bind .pure))

theorem arrayPatternRule (h : r.Keeps E) (hw : r.Writes) :
    E.Keeps within Somewhere (Rule.arrayPattern r) := by
  have hstuck : E.Stuck r.bindingElement :=
    .of_takes hw.bindingElement fun p hp => hp.ne_nil rfl rfl
  refine .advance_bind (fun h => h rfl) (.andThen (.collect (.of_stuck
    (.accept_bind (.accept_bind (.accept_bind (.bind hstuck)))) ?_)) fun es => .pure)
  refine .accept_bind (.inr (.inr fun h => h.2 rfl)) .pure ?_
  refine .accept_bind (.inr (.inr fun h => h.2 rfl)) .pure ?_
  refine .accept_bind (.inr (.inl (E.next_ne (by decide)))) ?_ ?_
  · exact .andThen h.bindingTarget fun p => .expect_bind .pure
  · exact arrayElement h.bindingElement

theorem arrayLiteralRule (h : r.Keeps E) (hw : r.Writes) :
    E.Keeps within Somewhere (Rule.arrayLiteral r) := by
  have hstuck : E.Stuck (Rule.spreadable r) :=
    .of_takes hw.spreadable fun e he => he.ne_nil rfl rfl
  refine .advance_bind (fun h => h rfl) (.andThen (.collect (.of_stuck
    (.accept_bind (.accept_bind (.bind hstuck))) ?_)) fun es => .pure)
  refine .accept_bind (.inr (.inr fun h => h.2 rfl)) .pure ?_
  exact .accept_bind (.inr (.inr fun h => h.2 rfl)) .pure (arrayElement h.spreadable)

theorem objectLiteralRule (h : r.Keeps E) : E.Keeps within Somewhere (Rule.objectLiteral r) := by
  refine .advance_bind (fun h => h rfl) (.before_expect (.collect ?_) fun properties => .pure)
  refine .check_bind (.inl rfl) .pure (.andThen h.objectMember fun p => ?_)
  exact .accept_bind (.inl rfl) .pure .pure

/-! ### Members of objects -/

theorem modifier : E.Keeps within Anywhere Rule.modifier := by
  refine .kind_bind_other (fun k => ?_)
    (separators_all (fun _ => rfl) (fun _ => rfl) rfl rfl rfl rfl rfl rfl)
  split
  · next word =>
    cases Rule.modifierKind? word with
    | none => exact .pure
    | some kind =>
      refine .ahead_bind (fun us hus => List.length_pos_iff.2 (somewhere rfl hus.2))
        (fun t ht => .ite Iff.rfl (fun _ => ?_) fun _ => .pure) ?_
      · exact .advance_bind (fun h => nomatch h.1.2) .pure
      · have hno : ∀ k : TokenKind, k.Separates → k.startsMethodName = false :=
          separators_all (fun _ => rfl) (fun _ => rfl) rfl rfl rfl rfl rfl rfl
        have heof : TokenKind.eof.startsMethodName = false := rfl
        simp only [E.final_eof, heof, hno _ E.next_separates]
        exact .pure
  · exact .pure

theorem shorthandValue (h : r.Keeps E) (name : String) :
    E.Keeps within Anywhere (Rule.shorthandValue r name) := by
  refine .kind_bind_other (fun k => .ite Iff.rfl (fun hk => ?_) fun _ => .pure)
    (separators_all (fun _ => rfl) (fun _ => rfl) rfl rfl rfl rfl rfl rfl)
  subst hk
  exact .advance_bind (fun h => nomatch h.2) (.andThen h.assignment fun e => .pure)

/-- The value of a member, with something behind it: a name may go on with `:`. -/
theorem memberValue (h : r.Keeps E) (kind : PropertyKind) (isAsync generator : Bool) (key : Key)
    (shorthand : Option String) :
    E.Keeps true Anywhere (Rule.memberValue r kind isAsync generator key shorthand) := by
  refine .check_bind (.inl rfl) ?_ ?_
  · exact .anywhere (.andThen h.parameters fun params => .andThen .skipBlock fun _ => .pure)
  refine .ite Iff.rfl (by rintro ⟨⟩) fun _ => ?_
  suffices value : E.Keeps true Anywhere _ from
    .ite Iff.rfl (fun _ => .andThen .fail fun _ => value) fun _ => value
  refine .accept_bind (.inl rfl) (.andThen h.assignment fun e => .pure) ?_
  cases shorthand with
  | none => exact .fail
  | some name => exact .andThen (h.shorthandValue name) fun e => .pure

theorem objectMemberRule (h : r.Keeps E) : E.Keeps true Anywhere (Rule.objectMember r) := by
  refine .accept_bind (E.next_unmarked (by decide)) (.andThen h.assignment fun e => .pure) ?_
  refine .andThen modifier fun m => ?_
  have behind : ∀ generator, E.Keeps true Anywhere (do
      let key ← r.propertyKey
      Rule.memberValue r m.1 m.2 generator key.1 key.2) :=
    fun generator => .andThen h.propertyKey fun key => h.memberValue m.1 m.2 generator key.1 key.2
  exact .accept_bind (E.next_unmarked (by decide)) (behind true) (behind false)

theorem propertyKeyRule (h : r.Keeps E) : E.Keeps within Anywhere (Rule.propertyKey r) := by
  refine .kind_bind (fun k hk => ?_) .fail
  split
  · exact .advance_bind (fun h => nomatch h.2) .pure
  · refine .advance_bind (fun h => nomatch h.2) (.before_expect h.assignment fun e => .pure)
  · cases Rule.fixedKey? k with
    | none => exact .fail
    | some name => exact .advance_bind (fun h => somewhere hk h.2 rfl) .pure

/-! ### Templates -/

theorem templateLiteralRule (h : r.Keeps E) : E.Keeps within Anywhere (Rule.templateLiteral r) := by
  have substitution : E.Keeps within Anywhere (Rule.substitution r) := by
    -- a substitution is followed by a piece of the template, whatever the end is
    refine .bind_stuck (h.sequence (.inl rfl)) (fun e => .anywhere ?_)
      (.inr fun e => .kind_bind .fail)
    refine .kind_bind (fun k hk => ?_) .fail
    split
    · exact .advance_bind (fun h => nomatch h.2) .pure
    · exact .advance_bind (fun h => nomatch h.2) .pure
    · exact .fail
  refine .kind_bind (fun k hk => ?_) .fail
  split
  · exact .advance_bind (fun h => nomatch h.2) .pure
  · exact .advance_bind (fun h => nomatch h.2)
      (.andThen (.collect substitution) fun parts => .pure)
  · exact .fail

/-! ### The grammar -/

/-- Rules that call rules that keep their results do so too. -/
theorem step (h : r.Keeps E) (hw : r.Writes) : r.step.Keeps E where
  sequence := h.sequenceRule
  assignment := h.assignmentRule
  conditional := h.conditionalRule
  binary := h.binaryRule
  exponent := h.exponentRule
  unary := h.unaryRule
  operand := h.operandRule
  suffixes := h.suffixesRule
  construction := h.constructionRule
  arguments := h.argumentsRule
  primary := h.primaryRule hw
  asyncFunction? := h.asyncFunctionRule
  parenthesized := h.parenthesizedRule
  arrowBody := h.arrowBodyRule
  functionExpression := h.functionExpressionRule
  parameters := h.parametersRule
  bindingElement := h.bindingElementRule
  bindingTarget := h.bindingTargetRule
  arrayPattern := h.arrayPatternRule hw
  objectPattern := h.objectPatternRule
  arrayLiteral := h.arrayLiteralRule hw
  objectLiteral := h.objectLiteralRule
  objectMember := h.objectMemberRule
  propertyKey := h.propertyKeyRule
  templateLiteral := h.templateLiteralRule

theorem exhausted : Rules.exhausted.Keeps E := by
  constructor
  all_goals
    intros
    exact .fail

end Rules.Keeps

/-- All rules of the grammar do in front of a separator what they do in front of the
end. -/
theorem grammar_keeps (E : Endings) (n : Nat) : (Grammar.rules n).Keeps E := by
  induction n with
  | zero => exact .exhausted
  | succ n ih => exact ih.step (rules_write n)

theorem expression_keeps (E : Endings) (hcomma : E.next.kind ≠ .punct .comma) :
    E.Keeps false Anywhere Parse.expression := by
  refine .andThen ((grammar_keeps E _).sequence (.inr hcomma)) fun e =>
    .kind_bind_other (fun k => ?_)
      (separators_all (fun _ => rfl) (fun _ => rfl) rfl rfl rfl rfl rfl rfl)
  split
  · exact .fail
  · exact .pure

/-! ### Texts -/

theorem complete_ok {s : Stream} {e : Expr} (h : (Parse.complete.run s).1 = .ok e) :
    ∃ t, Parse.expression s = .ok e t ∧ t.current.kind = .eof := by
  unfold Parse.run Parse.complete at h
  simp only [Bind.bind, EStateM.bind, Parse.kind] at h
  cases hrun : Parse.expression s with
  | error error t => rw [hrun] at h; exact nomatch h
  | ok e' t =>
    rw [hrun] at h
    by_cases hend : t.current.kind = .eof
    · simp only [hend, ↓reduceIte] at h
      obtain rfl : e' = e := Except.ok.inj h
      exact ⟨t, rfl, hend⟩
    · simp only [hend, ↓reduceIte] at h
      exact nomatch h

/-- An expression that all tokens belong to is read from those before the last one, which is
the end. -/
theorem complete_end {us : List Token} {final : Token} {e : Expr} (hlive : Live us)
    (hfinal : final.kind.isTerminal = true)
    (h : (Parse.complete.run { rest := us ++ [final] }).1 = .ok e) :
    final.kind = .eof ∧
      ∃ t, Parse.expression { rest := us ++ [final] } = .ok e t ∧ t.rest = [final] := by
  obtain ⟨t, hrun, hend⟩ := complete_ok h
  have htakes := expression_takes { rest := us ++ [final] } trivial
  rw [hrun] at htakes
  obtain ⟨taken, hrest, htaken, -⟩ := htakes
  have hrest : t.rest = [final] := by
    obtain ⟨between, hbetween, hlast⟩ | ⟨between, hbetween, hlast⟩ :=
      List.append_eq_append_iff.1 hrest
    · -- the last token is terminal, so it has not been taken
      cases between with
      | nil => exact hlast.symm
      | cons u between =>
        obtain ⟨rfl, -⟩ := List.cons.inj hlast
        have hlast := htaken _ (hbetween ▸ List.mem_append_right us (List.mem_cons_self ..))
        exact nomatch hlast.symm.trans hfinal
    · -- the one where the expression ends is terminal, so it is the last one
      cases between with
      | nil => exact hlast
      | cons u between =>
        have hu := hlive u (hbetween ▸ List.mem_append_right taken (List.mem_cons_self ..))
        rw [Stream.current, hlast] at hend
        rw [show u.kind = .eof from hend] at hu
        exact nomatch hu
  refine ⟨?_, t, hrun, hrest⟩
  rw [Stream.current, hrest] at hend
  exact hend

/-- An expression that all tokens of a text belong to is read from those before the
last one, which is the end of the text. -/
theorem complete_split {source : String} {e : Expr}
    (h : (Parse.complete.run { rest := tokenize source }).1 = .ok e) :
    ∃ us final t, tokenize source = us ++ [final] ∧ Live us ∧ final.kind = .eof ∧
      Parse.expression { rest := us ++ [final] } = .ok e t ∧ t.rest = [final] := by
  obtain ⟨us, final, htokens, hlive, hfinal⟩ := tokenize_init source
  rw [htokens] at h
  obtain ⟨hend, t, hrun, hrest⟩ := complete_end hlive hfinal h
  exact ⟨us, final, t, htokens, hlive, hend, hrun, hrest⟩

/-- What follows an expression in a line of its own does not change how the expression
is read, if it begins with a separator and the brackets in the function bodies that
are passed over are nested. -/
theorem parse_append {source : String} {e : Expr} {c : Char} {mark : Punctuator}
    (h : (Parse.complete.run { rest := tokenize source }).1 = .ok e)
    (hbodies : Spells (Nested brackets) (Part.expr e) (kinds (tokenize source).dropLast))
    (hc : (c, mark) ∈ separators) (after : String) :
    parse (source ++ "\n" ++ String.singleton c ++ after) = .ok e := by
  obtain ⟨us, final, t, htokens, hlive, hfinal, hrun, hrest⟩ := complete_split h
  rw [htokens, List.dropLast_concat] at hbodies
  have hmatched : Matched (Nested brackets) (kinds us) := hbodies.matched
  -- no brace is open behind the tokens, so the lexer reads the separator as one
  obtain ⟨next, more, hmore, hnext⟩ := tokenize_append htokens hfinal hc (fun inside hinside => by
    obtain rfl : inside = [] := hmatched.braced hinside
    exact nofun) after
  have hmark : mark ∈ separators.map (·.2) := List.mem_map_of_mem hc
  have hcomma : next.kind ≠ .punct .comma := by
    rw [hnext]
    rintro ⟨⟩
    exact absurd hmark (by decide)
  let E : Endings := ⟨final, next, more, hfinal, hnext ▸ List.mem_cons_of_mem _ hmark⟩
  obtain ⟨vs, hvs, hvs', hlong⟩ :=
    expression_keeps E hcomma us 0 e t (E.agrees hlive hmatched.nested) trivial hrun
  rw [parse, hmore, Parse.run, show us ++ next :: more = E.long us from rfl, hlong nofun]

/-- A function with a body, and behind it a brace and a template that never ends. -/
theorem parse_append_body :
    (Parse.complete.run { rest := tokenize "x => \x7b f(y) \x7d" }).1 =
      .ok (.function .arrow false none [.identifier "x"] .block) ∧
    Spells (Nested brackets) (Part.expr (.function .arrow false none [.identifier "x"] .block))
      (kinds (tokenize "x => \x7b f(y) \x7d").dropLast) ∧
    ('}', .rightBrace) ∈ separators ∧
    parse ("x => \x7b f(y) \x7d" ++ "\n" ++ String.singleton '}' ++ " => `") =
      .ok (.function .arrow false none [.identifier "x"] .block) := by
  have hrun : (Parse.complete.run { rest := tokenize "x => \x7b f(y) \x7d" }).1 =
      .ok (.function .arrow false none [.identifier "x"] .block) := by
    with_unfolding_all rfl
  have hkinds : kinds (tokenize "x => \x7b f(y) \x7d").dropLast =
      .identifier "x" :: .punct .arrow :: enclosed .leftBrace .rightBrace
        [.identifier "f", .punct .leftParen, .identifier "y", .punct .rightParen] := by
    decide +kernel
  have hargument : Nested brackets [.identifier "y"] := .plain (by decide) .nil
  have hbody : Nested brackets
      [.identifier "f", .punct .leftParen, .identifier "y", .punct .rightParen] :=
    .plain (by decide) (.group (by decide) hargument .nil)
  have hspells : Spells (Nested brackets)
      (Part.expr (.function .arrow false none [.identifier "x"] .block))
      (kinds (tokenize "x => \x7b f(y) \x7d").dropLast) := by
    rw [hkinds]
    exact .arrowName false "x" (.bodyBlock hbody)
  have hbrace : ('}', Punctuator.rightBrace) ∈ separators := by decide
  exact ⟨hrun, hspells, hbrace, parse_append hrun hspells hbrace " => `"⟩

end TemplateVars
