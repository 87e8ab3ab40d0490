/-
Relations between readers that the rules keep.

A `Congruence` is a relation between readers that holds of readers put together if it holds of
their parts.  Whatever is shown of the rules in this way is shown here once:

* `Congruence.step` — the rules of a step are related if those that they call are;
* `Congruence.rules` — so the rules for chains of any number of calls are related.

Design notes: a relation may know the kind of the token ahead, which is how it stands with
`asyncFunction?` and with what is read a level deeper behind a bracket.  The rules that look
at more than that kind are handed over as `Lookahead`.  Of the second of two readers it is known
what it takes: that tells the rounds of a list that go on without a token, and a level that is
opened at no token, from what the rules do.  The first of two rules may have another reader for
blocks; only three rules pass over any, and with `skipBlock` their copies are these rules by
definition.
-/
import TemplateVars.Proofs.Grammar.Frames
import TemplateVars.Proofs.Grammar.Soundness

namespace TemplateVars

open Takes (Anywhere)

/-! ### Another reader for blocks -/

namespace Rule

open Parse

/-- `arrowBody` with some reader for its block. -/
def arrowBodyWith (block : Parse Unit) (r : Rules) (isAsync : Bool) (params : List Pattern) :
    Parse Expr := do
  if ← check .leftBrace then
    block
    return .function .arrow isAsync none params .block
  else
    return .function .arrow isAsync none params (.expression (← r.assignment))

/-- `functionExpression` with some reader for its block. -/
def functionExpressionWith (block : Parse Unit) (r : Rules) (isAsync : Bool) : Parse Expr := do
  advance
  let _ ← accept .star
  let name ← functionName?
  let params ← r.parameters
  block
  return .function .expression isAsync name params .block

/-- `memberValue` with some reader for the block of a method. -/
def memberValueWith (block : Parse Unit) (r : Rules) (propertyKind : PropertyKind)
    (isAsync generator : Bool) (key : Key) (shorthand : Option String) : Parse Property := do
  if ← check .leftParen then
    let params ← r.parameters
    block
    let method := .function .expression isAsync (methodName? key) params .block
    return .keyed key method (if propertyKind = .init then .method else propertyKind) false
  if propertyKind ≠ .init ∨ generator then fail .methodParen
  if ← accept .colon then
    return .keyed key (← r.assignment) .init false
  match shorthand with
  | some name => return .keyed key (← shorthandValue r name) .init true
  | none => fail .propertyColon

/-- `objectMember` with some reader for the block of a method. -/
def objectMemberWith (block : Parse Unit) (r : Rules) : Parse Property := do
  if ← accept .ellipsis then return .spread (← r.assignment)
  let (propertyKind, isAsync) ← modifier
  let generator ← accept .star
  let (key, shorthand) ← r.propertyKey
  memberValueWith block r propertyKind isAsync generator key shorthand

end Rule

/-- `Rules.step` with some reader in place of `skipBlock`. -/
def Rules.stepWith (block : Parse Unit) (r : Rules) : Rules :=
  { r.step with
    arrowBody := Rule.arrowBodyWith block r
    functionExpression := Rule.functionExpressionWith block r
    objectMember := Rule.objectMemberWith block r }

theorem Rules.stepWith_skipBlock (r : Rules) : r.stepWith Rule.skipBlock = r.step := rfl

/-! ### What is known of readers -/

namespace Parse

variable {α β : Type}

/-- Whether each round that goes on takes a token. -/
def RoundTakes (round : Parse (Item α)) : Prop :=
  Takes Anywhere round fun item ks => ∀ a, item = .more a → ks ≠ []

/-- Whether each link that goes on takes a token. -/
def LinkTakes (link : α → Parse (Option α)) : Prop :=
  ∀ a, Takes Anywhere (link a) fun next ks => ∀ b, next = some b → ks ≠ []

/-- Links take tokens if they read what is written behind an expression. -/
theorem LinkTakes.of_written {link : Expr → Parse (Option Expr)}
    (h : ∀ left, Takes Anywhere (link left) (WrittenBehind left)) : LinkTakes link := by
  refine fun left => (h left).mono (fun _ h => h) fun next ks hnext e he => ?_
  subst he
  exact hnext.1

/-- Whether two readers are the same, but for the cause if they only fail. -/
def SameButCause (p q : Parse α) : Prop :=
  p = q ∨ ∃ cause cause', p = fail cause ∧ q = fail cause'

/-- Whether a reader fails at an `invalid` token and takes nothing. -/
def Refusing (p : Parse α) : Prop :=
  ∀ (s : Stream) (error : LexError), s.current.kind = .invalid error →
    ∃ cause t, p s = .error (t.errorHere cause) t ∧ t.rest = s.rest

namespace Refusing

variable {p : Parse α}

/-- A reader that takes a token whenever it succeeds has nothing to take there. -/
theorem of_takes {Q : α → List TokenKind → Prop} (h : Takes Anywhere p Q) (hQ : ∀ a, ¬Q a []) :
    p.Refusing := by
  intro s error hs
  have nothing : ∀ {taken rest : List Token}, s.rest = taken ++ rest → Live taken → taken = [] := by
    intro taken rest htaken hlive
    match taken with
    | [] => rfl
    | t :: taken =>
      have hlast : t.kind = .invalid error := by
        rw [← hs, Stream.current, htaken]
        rfl
      exact nomatch hlast ▸ hlive t List.mem_cons_self
  have htakes := h s trivial
  cases hrun : p s with
  | ok a t =>
    rw [hrun] at htakes
    obtain ⟨taken, hrest, hlive, hq⟩ := htakes
    rw [nothing hrest hlive] at hq
    exact absurd hq (hQ a)
  | error e t =>
    rw [hrun] at htakes
    obtain ⟨taken, cause, hrest, hlive, rfl⟩ := htakes
    obtain rfl := nothing hrest hlive
    exact ⟨cause, t, rfl, hrest.symm⟩

theorem bind {f : α → Parse β} (hp : p.Refusing) : (p >>= f).Refusing := by
  intro s error hs
  obtain ⟨cause, t, hrun, ht⟩ := hp s error hs
  exact ⟨cause, t, bind_of_error hrun, ht⟩

theorem kind_bind {f : TokenKind → Parse β} (h : ∀ error, (f (.invalid error)).Refusing) :
    (kind >>= f).Refusing := by
  intro s error hs
  obtain ⟨cause, t, hrun, ht⟩ := h error s error hs
  refine ⟨cause, t, ?_, ht⟩
  rw [bind_of_ok (show kind s = .ok s.current.kind s from rfl), hs, hrun]

theorem advance_bind {f : Unit → Parse β} (h : (f ()).Refusing) : (advance >>= f).Refusing := by
  intro s error hs
  have hadvance : s.advance = s := if_pos (by rw [hs]; rfl)
  obtain ⟨cause, t, hrun, ht⟩ := h s error hs
  refine ⟨cause, t, ?_, ht⟩
  rw [bind_of_ok (show advance s = .ok () s.advance from rfl), hadvance, hrun]

theorem accept_bind {m : Punctuator} {f : Bool → Parse β} (h : (f false).Refusing) :
    (accept m >>= f).Refusing := by
  intro s error hs
  obtain ⟨cause, t, hrun, ht⟩ := h s error hs
  refine ⟨cause, t, ?_, ht⟩
  have haccept : accept m s = .ok false s := if_neg (by rw [hs]; exact TokenKind.noConfusion)
  rw [bind_of_ok haccept, hrun]

end Refusing

end Parse

/-! ### Relations -/

/-- The word that a rule may be called at; nothing if it may be called anywhere. -/
def RuleCall.ahead? : RuleCall → Option TokenKind
  | asyncFunction? => some (.identifier "async")
  | _ => none

theorem RuleCall.ahead?_ne_mark (c : RuleCall) (m : Punctuator) : c.ahead? ≠ some (.punct m) := by
  cases c <;> exact nofun

/-- A relation between readers, for each kind that the token ahead may be known to be of. -/
abbrev ReaderRelation := Option TokenKind → ∀ ⦃α : Type⦄, Parse α → Parse α → Prop

/-- Whether a relation holds of readers put together if it holds of their parts. -/
structure Congruence (R : ReaderRelation) : Prop where
  anywhere {α : Type} {p q : Parse α} {k : Option TokenKind} (h : R none p q) : R k p q
  pure {α : Type} (a : α) : R none (Pure.pure a : Parse α) (Pure.pure a)
  fail {α : Type} {cause : SyntaxError} (h : cause ≠ .outOfSteps) :
    R none (Parse.fail cause : Parse α) (Parse.fail cause)
  advance : R none Parse.advance Parse.advance
  bind {α β : Type} {p q : Parse α} {f g : α → Parse β} {k : Option TokenKind} (h : R k p q)
    (hf : ∀ a, R none (f a) (g a)) : R k (p >>= f) (q >>= g)
  kind {β : Type} {f g : TokenKind → Parse β} (h : ∀ k, R (some k) (f k) (g k))
    (hinvalid : ∀ error error', (g (.invalid error)).SameButCause (g (.invalid error'))) :
    R none (Parse.kind >>= f) (Parse.kind >>= g)
  nested {α : Type} {p q : Parse α} (h : R none p q) (hq : q.Refusing) :
    R none (Parse.nested p) (Parse.nested q)
  nested_at {α : Type} {p q : Parse α} (m : Punctuator) (h : R none p q) :
    R (some (.punct m)) (Parse.nested p) (Parse.nested q)
  collect {α : Type} {round round' : Parse (Parse.Item α)} (h : R none round round')
    (htakes : Parse.RoundTakes round') : R none (Parse.collect round) (Parse.collect round')
  chain {α : Type} {link link' : α → Parse (Option α)} (h : ∀ a, R none (link a) (link' a))
    (htakes : Parse.LinkTakes link') (a : α) : R none (Parse.chain link a) (Parse.chain link' a)

/-- Whether the calls of two sets of rules are related. -/
def Rules.Related (R : ReaderRelation) (p r : Rules) : Prop :=
  ∀ c : RuleCall, R c.ahead? (p.read c) (r.read c)

/-- Whether the rules that look at more than the kind of the token ahead are related. -/
structure Rules.Lookahead (R : ReaderRelation) (p r : Rules) : Prop where
  postfixUpdate : R none (do Rule.postfixUpdate (← p.operand)) (do Rule.postfixUpdate (← r.operand))
  nameOrArrow (name : String) : R none (Rule.nameOrArrow p name) (Rule.nameOrArrow r name)
  asyncFunction? :
    R (some (.identifier "async")) (Rule.asyncFunction? p) (Rule.asyncFunction? r)
  parenthesized (isAsync : Bool) :
    R none (Rule.parenthesized p isAsync) (Rule.parenthesized r isAsync)
  modifier : R none Rule.modifier Rule.modifier

namespace Congruence

variable {R : ReaderRelation} {α β : Type}

theorem branch {c : Prop} [Decidable c] {p p' q q' : Parse α}
    (hp : R none p q) (hp' : R none p' q') :
    R none (if c then p else p') (if c then q else q') := by
  split
  · exact hp
  · exact hp'

/-- A look at the token ahead of which the readers behind it need not know. -/
theorem kind_bind (hR : Congruence R) {f g : TokenKind → Parse β} (h : ∀ k, R none (f k) (g k))
    (hinvalid : ∀ error error', (g (.invalid error)).SameButCause (g (.invalid error'))) :
    R none (Parse.kind >>= f) (Parse.kind >>= g) :=
  hR.kind (fun k => hR.anywhere (h k)) hinvalid

theorem check (hR : Congruence R) (m : Punctuator) : R none (Parse.check m) (Parse.check m) :=
  hR.kind_bind (f := fun k => Pure.pure (decide (k = .punct m))) (fun _ => hR.pure _)
    fun _ _ => .inl rfl

theorem accept_bind (hR : Congruence R) {m : Punctuator} {f g : Bool → Parse β}
    (h : ∀ there, R none (f there) (g there)) :
    R none (Parse.accept m >>= f) (Parse.accept m >>= g) := by
  rw [Parse.accept_bind_eq, Parse.accept_bind_eq]
  exact hR.bind (hR.check m) fun _ => branch (hR.bind hR.advance fun _ => h true) (h false)

theorem expect_bind (hR : Congruence R) {wanted : Expected} {f g : Unit → Parse β}
    (h : R none (f ()) (g ())) :
    R none (Parse.expect wanted >>= f) (Parse.expect wanted >>= g) := by
  rw [Parse.expect_bind_eq, Parse.expect_bind_eq]
  refine hR.kind_bind (fun k => branch (hR.bind hR.advance fun _ => h) (hR.fail nofun)) ?_
  exact fun _ _ => .inr ⟨_, _, rfl, rfl⟩

variable {p r : Rules}

/-! ### Operators -/

theorem sequenceRule (hR : Congruence R) (h : p.Related R r) (hw : r.Writes) :
    R none (Rule.sequence p) (Rule.sequence r) := by
  refine hR.bind (h .assignment) fun first => hR.bind (hR.collect ?_ ?_) fun rest => ?_
  · refine hR.accept_bind fun _ => branch ?_ (hR.pure _)
    exact hR.bind (h .assignment) fun _ => hR.pure _
  · exact .accept_bind (.andThen hw.assignment fun _ _ _ => .pure nofun) (.pure nofun)
  · split
    · exact hR.pure _
    · exact hR.pure _

theorem assignmentRule (hR : Congruence R) (h : p.Related R r) (hw : r.Writes) :
    R none (Rule.assignment p) (Rule.assignment r) := by
  refine hR.nested (hR.bind (h .conditional) fun target => hR.kind_bind (fun k => ?_) ?_) ?_
  · split
    · exact hR.bind hR.advance fun _ => hR.bind (h .assignment) fun _ => hR.pure _
    · exact hR.pure _
  · exact fun _ _ => .inl rfl
  · exact .bind (.of_takes hw.conditional fun _ he => he.ne_nil rfl rfl)

theorem conditionalRule (hR : Congruence R) (h : p.Related R r) :
    R none (Rule.conditional p) (Rule.conditional r) := by
  refine hR.bind (h (.binary 1)) fun _ => hR.accept_bind fun _ => branch ?_ (hR.pure _)
  refine hR.bind (h .assignment) fun _ => hR.expect_bind ?_
  exact hR.bind (h .assignment) fun _ => hR.pure _

theorem binaryRule (hR : Congruence R) (h : p.Related R r) (hw : r.Writes) (minPrecedence : Nat) :
    R none (Rule.binary p minPrecedence) (Rule.binary r minPrecedence) := by
  refine hR.bind (h .exponent) fun first =>
    hR.chain (fun left => hR.kind_bind (fun k => ?_) ?_) (.of_written (hw.infixLink _)) _
  · split
    · refine branch (hR.pure _) (hR.bind hR.advance fun _ => ?_)
      exact hR.bind (h (.binary _)) fun _ => hR.pure _
    · exact hR.pure _
  · exact fun _ _ => .inl rfl

theorem exponentRule (hR : Congruence R) (h : p.Related R r) (hw : r.Writes) :
    R none (Rule.exponent p) (Rule.exponent r) := by
  refine hR.bind (h .unary) fun _ => hR.accept_bind fun _ => branch ?_ (hR.pure _)
  refine hR.bind (hR.nested (h .exponent) ?_) fun _ => hR.pure _
  exact .of_takes hw.exponent fun _ he => he.ne_nil rfl rfl

theorem unaryRule (hR : Congruence R) (h : p.Related R r) (hw : r.Writes)
    (hlook : p.Lookahead R r) : R none (Rule.unary p) (Rule.unary r) := by
  have deeper : R none (Parse.nested p.unary) (Parse.nested r.unary) :=
    hR.nested (h .unary) (.of_takes hw.unary fun _ he => he.ne_nil rfl rfl)
  refine hR.kind_bind (fun k => ?_) fun _ _ => .inl rfl
  split
  · exact hR.bind hR.advance fun _ => hR.bind deeper fun _ => hR.pure _
  · exact hR.bind hR.advance fun _ => hR.bind deeper fun _ => hR.pure _
  · exact hlook.postfixUpdate

/-! ### Members and calls -/

theorem operandRule (hR : Congruence R) (h : p.Related R r) :
    R none (Rule.operand p) (Rule.operand r) := by
  refine hR.kind_bind (fun k => branch ?_ ?_) fun _ _ => .inl rfl
  · exact hR.bind (h .construction) fun base => h (.suffixes true base)
  · exact hR.bind (h .primary) fun base => h (.suffixes true base)

theorem memberName (hR : Congruence R) : R none Rule.memberName Rule.memberName := by
  refine hR.kind_bind (fun k => ?_) fun _ _ => .inr ⟨_, _, rfl, rfl⟩
  split
  · exact hR.bind hR.advance fun _ => hR.pure _
  · exact hR.bind hR.advance fun _ => hR.pure _
  · exact hR.fail nofun

theorem suffix (hR : Congruence R) (h : p.Related R r) (allowCalls : Bool) (object : Expr) :
    R none (Rule.suffix p allowCalls object) (Rule.suffix r allowCalls object) := by
  have computed : R none (Rule.computedMember p) (Rule.computedMember r) :=
    hR.bind hR.advance fun _ => hR.bind (h .sequence) fun _ => hR.expect_bind (hR.pure _)
  refine hR.kind_bind (fun k => ?_) fun _ _ => .inl rfl
  split
  · exact hR.bind hR.advance fun _ => hR.bind hR.memberName fun _ => hR.pure _
  · refine branch (hR.pure _) (hR.bind hR.advance fun _ => ?_)
    refine hR.kind_bind (fun k => ?_) fun _ _ => .inl rfl
    split
    · exact hR.bind (h .arguments) fun _ => hR.pure _
    · exact hR.bind computed fun _ => hR.pure _
    · exact hR.bind hR.memberName fun _ => hR.pure _
  · exact hR.bind computed fun _ => hR.pure _
  · exact branch (hR.pure _) (hR.bind (h .arguments) fun _ => hR.pure _)
  · exact hR.bind (h .templateLiteral) fun _ => hR.pure _
  · exact hR.bind (h .templateLiteral) fun _ => hR.pure _
  · exact hR.pure _

theorem constructionRule (hR : Congruence R) (h : p.Related R r) (hw : r.Writes) :
    R none (Rule.construction p) (Rule.construction r) := by
  have callee : ∀ base, R none (do
      let callee ← p.suffixes false base
      if ← Parse.check .leftParen then return Expr.new callee (← p.arguments)
      else return Expr.new callee []) (do
      let callee ← r.suffixes false base
      if ← Parse.check .leftParen then return Expr.new callee (← r.arguments)
      else return Expr.new callee []) := by
    refine fun base => hR.bind (h (.suffixes false base)) fun _ => hR.bind (hR.check _) fun _ => ?_
    exact branch (hR.bind (h .arguments) fun _ => hR.pure _) (hR.pure _)
  have target : R none (do
      if (← Parse.kind) = .identifier "target" then
        Parse.advance
        return Expr.newTarget
      else Parse.fail .newTarget) (do
      if (← Parse.kind) = .identifier "target" then
        Parse.advance
        return Expr.newTarget
      else Parse.fail .newTarget) := by
    refine hR.kind_bind (fun _ => branch ?_ (hR.fail nofun)) fun _ _ => .inl rfl
    exact hR.bind hR.advance fun _ => hR.pure _
  refine hR.nested (hR.bind hR.advance fun _ => hR.accept_bind fun _ => branch target ?_) ?_
  · refine hR.kind_bind (fun _ => branch ?_ ?_) fun _ _ => .inl rfl
    · exact hR.bind (h .construction) callee
    · exact hR.bind (h .primary) callee
  · refine .advance_bind (.accept_bind (.kind_bind fun _ => .bind ?_))
    exact .of_takes hw.primary fun _ he => he.ne_nil rfl rfl

theorem spreadable (hR : Congruence R) (h : p.Related R r) :
    R none (Rule.spreadable p) (Rule.spreadable r) :=
  hR.accept_bind fun _ => branch (hR.bind (h .assignment) fun _ => hR.pure _) (h .assignment)

theorem argumentsRule (hR : Congruence R) (h : p.Related R r) (hw : r.Writes) :
    R none (Rule.arguments p) (Rule.arguments r) := by
  refine hR.bind hR.advance fun _ => hR.bind (hR.collect ?_ ?_) fun _ => hR.expect_bind (hR.pure _)
  · refine hR.bind (hR.check _) fun _ => branch (hR.pure _) (hR.bind (hR.spreadable h) fun _ => ?_)
    exact hR.accept_bind fun _ => branch (hR.pure _) (hR.pure _)
  · refine .check_bind (.pure nofun) (.anywhere (.andThen hw.spreadable fun _ _ _ => ?_))
    exact .accept_bind (.pure (by simp)) (.pure nofun)

/-! ### Primary expressions -/

theorem primaryRule (hR : Congruence R) (h : p.Related R r) (hlook : p.Lookahead R r) :
    R none (Rule.primary p) (Rule.primary r) := by
  have literal : ∀ value, R none (do
      Parse.advance
      return Expr.literal value) (do
      Parse.advance
      return Expr.literal value) := fun _ => hR.bind hR.advance fun _ => hR.pure _
  refine hR.kind (fun k => ?_) fun _ _ => .inr ⟨_, _, rfl, rfl⟩
  simp only []
  split
  · next name =>
    have rest : ∀ f, R none (match f with
        | some function => Pure.pure function
        | none => Rule.nameOrArrow p name : Parse Expr) (match f with
        | some function => Pure.pure function
        | none => Rule.nameOrArrow r name) := by
      intro f
      cases f with
      | some function => exact hR.pure _
      | none => exact hlook.nameOrArrow name
    by_cases hname : name = "async"
    · subst hname
      rw [if_pos rfl, if_pos rfl]
      exact hR.bind (h .asyncFunction?) rest
    · rw [if_neg hname, if_neg hname]
      exact hR.anywhere (hR.bind (hR.pure _) rest)
  · exact hR.anywhere (literal _)
  · exact hR.anywhere (literal _)
  · exact hR.anywhere (literal _)
  · exact hR.anywhere (literal _)
  · exact hR.anywhere (literal _)
  · exact hR.anywhere (literal _)
  · exact hR.anywhere (literal _)
  · exact hR.anywhere (hR.bind hR.advance fun _ => hR.pure _)
  · exact hR.anywhere (hR.bind hR.advance fun _ => hR.pure _)
  · exact hR.anywhere (h .templateLiteral)
  · exact hR.anywhere (h .templateLiteral)
  · exact hR.anywhere (h (.parenthesized false))
  · exact hR.anywhere (h .arrayLiteral)
  · exact hR.anywhere (h .objectLiteral)
  · exact hR.anywhere (h (.functionExpression false))
  · exact hR.anywhere (hR.fail (by rintro ⟨⟩))

/-! ### Parameters and patterns -/

theorem parametersRule (hR : Congruence R) (h : p.Related R r) (hw : r.Writes) :
    R none (Rule.parameters p) (Rule.parameters r) := by
  refine hR.expect_bind (hR.bind (hR.collect ?_ ?_) fun _ => hR.expect_bind (hR.pure _))
  · refine hR.bind (hR.check _) fun _ => branch (hR.pure _) (hR.accept_bind fun _ => branch ?_ ?_)
    · exact hR.bind (h .bindingTarget) fun _ => hR.pure _
    · refine hR.bind (h .bindingElement) fun _ => hR.accept_bind fun _ => ?_
      exact branch (hR.pure _) (hR.pure _)
  · refine .check_bind (.pure nofun) (.accept_bind ?_ (.anywhere ?_))
    · exact .andThen hw.bindingTarget fun _ _ _ => .pure nofun
    · refine .andThen hw.bindingElement fun _ _ _ => ?_
      exact .accept_bind (.pure (by simp)) (.pure nofun)

theorem withDefault (hR : Congruence R) (h : p.Related R r) (target : Pattern) :
    R none (Rule.withDefault p target) (Rule.withDefault r target) := by
  refine hR.kind_bind (fun _ => branch ?_ (hR.pure _)) fun _ _ => .inl rfl
  exact hR.bind hR.advance fun _ => hR.bind (h .assignment) fun _ => hR.pure _

theorem bindingElementRule (hR : Congruence R) (h : p.Related R r) :
    R none (Rule.bindingElement p) (Rule.bindingElement r) :=
  hR.bind (h .bindingTarget) fun target => hR.withDefault h target

/-- The level for a pattern is opened at a bracket, which is a token. -/
theorem bindingTargetRule (hR : Congruence R) (h : p.Related R r) :
    R none (Rule.bindingTarget p) (Rule.bindingTarget r) := by
  refine hR.kind (fun k => ?_) fun _ _ => .inr ⟨_, _, rfl, rfl⟩
  split
  · exact hR.anywhere (hR.bind hR.advance fun _ => hR.pure _)
  · exact hR.nested_at _ (h .arrayPattern)
  · exact hR.nested_at _ (h .objectPattern)
  · exact hR.anywhere (hR.fail nofun)

/-- An element between brackets, with or without a comma behind it. -/
theorem element (hR : Congruence R) {element element' : Parse α} (h : R none element element')
    (wanted : Expected) : R none (do
      let a ← element
      if !(← Parse.check .rightBracket) then Parse.expect wanted
      return Parse.Item.more (some a)) (do
      let a ← element'
      if !(← Parse.check .rightBracket) then Parse.expect wanted
      return Parse.Item.more (some a)) := by
  refine hR.bind h fun _ => hR.bind (hR.check _) fun _ => ?_
  exact branch (hR.expect_bind (hR.pure _)) (hR.pure _)

theorem element_takes {element : Parse α} {Q : α → List TokenKind → Prop}
    (h : Takes Anywhere element Q) (hne : ∀ a ks, Q a ks → ks ≠ []) (wanted : Expected) :
    Parse.RoundTakes (do
      let a ← element
      if !(← Parse.check .rightBracket) then Parse.expect wanted
      return Parse.Item.more (some a)) := by
  refine .andThen h fun a ks ha => .check_bind (.pure ?_) (.expect_bind (.pure ?_))
  · rw [List.append_nil]
    exact fun _ _ => hne a ks ha
  · simp

theorem arrayPatternRule (hR : Congruence R) (h : p.Related R r) (hw : r.Writes) :
    R none (Rule.arrayPattern p) (Rule.arrayPattern r) := by
  refine hR.bind hR.advance fun _ => hR.bind (hR.collect ?_ ?_) fun _ => hR.pure _
  · refine hR.accept_bind fun _ => branch (hR.pure _) (hR.accept_bind fun _ => ?_)
    refine branch (hR.pure _) (hR.accept_bind fun _ => ?_)
    refine branch ?_ (hR.element (h .bindingElement) _)
    exact hR.bind (h .bindingTarget) fun _ => hR.expect_bind (hR.pure _)
  · refine .accept_bind (.pure nofun) (.accept_bind (.pure nofun) (.accept_bind ?_ ?_))
    · exact .andThen hw.bindingTarget fun _ _ _ => .expect_bind (.pure nofun)
    · exact .anywhere (element_takes hw.bindingElement (fun _ _ hp => hp.ne_nil rfl) _)

theorem patternProperty (hR : Congruence R) (h : p.Related R r) :
    R none (Rule.patternProperty p) (Rule.patternProperty r) := by
  refine hR.accept_bind fun _ => branch (hR.bind (h .bindingTarget) fun _ => hR.pure _) ?_
  refine hR.bind (h .propertyKey) fun k => hR.accept_bind fun _ => branch ?_ ?_
  · exact hR.bind (h .bindingElement) fun _ => hR.pure _
  · split
    · exact hR.bind (hR.withDefault h _) fun _ => hR.pure _
    · exact hR.fail nofun

theorem objectPatternRule (hR : Congruence R) (h : p.Related R r) (hw : r.Writes) :
    R none (Rule.objectPattern p) (Rule.objectPattern r) := by
  refine hR.bind hR.advance fun _ => hR.bind (hR.collect ?_ ?_) fun _ => hR.expect_bind (hR.pure _)
  · refine hR.bind (hR.check _) fun _ => branch (hR.pure _) ?_
    refine hR.bind (hR.patternProperty h) fun _ => hR.accept_bind fun _ => ?_
    exact branch (hR.pure _) (hR.pure _)
  · refine .check_bind (.pure nofun) (.anywhere (.andThen hw.patternProperty fun _ _ _ => ?_))
    exact .accept_bind (.pure (by simp)) (.pure nofun)

/-! ### Literals -/

theorem arrayLiteralRule (hR : Congruence R) (h : p.Related R r) (hw : r.Writes) :
    R none (Rule.arrayLiteral p) (Rule.arrayLiteral r) := by
  refine hR.bind hR.advance fun _ => hR.bind (hR.collect ?_ ?_) fun _ => hR.pure _
  · refine hR.accept_bind fun _ => branch (hR.pure _) (hR.accept_bind fun _ => ?_)
    exact branch (hR.pure _) (hR.element (hR.spreadable h) _)
  · refine .accept_bind (.pure nofun) (.accept_bind (.pure nofun) ?_)
    exact .anywhere (element_takes hw.spreadable (fun _ _ he => he.ne_nil rfl) _)

theorem objectLiteralRule (hR : Congruence R) (h : p.Related R r) (hw : r.Writes) :
    R none (Rule.objectLiteral p) (Rule.objectLiteral r) := by
  refine hR.bind hR.advance fun _ => hR.bind (hR.collect ?_ ?_) fun _ => hR.expect_bind (hR.pure _)
  · refine hR.bind (hR.check _) fun _ => branch (hR.pure _) (hR.bind (h .objectMember) fun _ => ?_)
    exact hR.accept_bind fun _ => branch (hR.pure _) (hR.pure _)
  · refine .check_bind (.pure nofun) (.anywhere (.andThen hw.objectMember fun _ _ _ => ?_))
    exact .accept_bind (.pure (by simp)) (.pure nofun)

theorem shorthandValue (hR : Congruence R) (h : p.Related R r) (name : String) :
    R none (Rule.shorthandValue p name) (Rule.shorthandValue r name) := by
  refine hR.kind_bind (fun _ => branch ?_ (hR.pure _)) fun _ _ => .inl rfl
  exact hR.bind hR.advance fun _ => hR.bind (h .assignment) fun _ => hR.pure _

theorem propertyKeyRule (hR : Congruence R) (h : p.Related R r) :
    R none (Rule.propertyKey p) (Rule.propertyKey r) := by
  refine hR.kind_bind (fun k => ?_) fun _ _ => .inr ⟨_, _, rfl, rfl⟩
  split
  · exact hR.bind hR.advance fun _ => hR.pure _
  · refine hR.bind hR.advance fun _ => hR.bind (h .assignment) fun _ => ?_
    exact hR.expect_bind (hR.pure _)
  · split
    · exact hR.bind hR.advance fun _ => hR.pure _
    · exact hR.fail nofun

theorem substitution (hR : Congruence R) (h : p.Related R r) :
    R none (Rule.substitution p) (Rule.substitution r) := by
  refine hR.bind (h .sequence) fun _ => hR.kind_bind (fun k => ?_) fun _ _ => .inl rfl
  split
  · exact hR.bind hR.advance fun _ => hR.pure _
  · exact hR.bind hR.advance fun _ => hR.pure _
  · exact hR.fail nofun

theorem substitution_takes (hw : r.Writes) : Parse.RoundTakes (Rule.substitution r) := by
  refine .andThen hw.sequence fun e ks he => .kind_bind fun k => ?_
  split
  · exact .advance_bind rfl (fun _ hts => hts.2) (.pure (by simp))
  · exact .advance_bind rfl (fun _ hts => hts.2) (.pure nofun)
  · exact .fail

theorem templateLiteralRule (hR : Congruence R) (h : p.Related R r) (hw : r.Writes) :
    R none (Rule.templateLiteral p) (Rule.templateLiteral r) := by
  refine hR.kind_bind (fun k => ?_) fun _ _ => .inr ⟨_, _, rfl, rfl⟩
  split
  · exact hR.bind hR.advance fun _ => hR.pure _
  · refine hR.bind hR.advance fun _ => hR.bind ?_ fun _ => hR.pure _
    exact hR.collect (hR.substitution h) (substitution_takes hw)
  · exact hR.fail nofun

/-! ### Bodies -/

section

variable {block : Parse Unit}

theorem arrowBodyRule (hR : Congruence R) (h : p.Related R r)
    (hblock : R none block Rule.skipBlock) (isAsync : Bool) (params : List Pattern) :
    R none (Rule.arrowBodyWith block p isAsync params) (Rule.arrowBody r isAsync params) := by
  refine hR.bind (hR.check _) fun _ => branch (hR.bind hblock fun _ => hR.pure _) ?_
  exact hR.bind (h .assignment) fun _ => hR.pure _

theorem functionExpressionRule (hR : Congruence R) (h : p.Related R r)
    (hblock : R none block Rule.skipBlock) (isAsync : Bool) :
    R none (Rule.functionExpressionWith block p isAsync) (Rule.functionExpression r isAsync) := by
  have name : R none Rule.functionName? Rule.functionName? := by
    refine hR.kind_bind (fun k => ?_) fun _ _ => .inl rfl
    split
    · exact hR.bind hR.advance fun _ => hR.pure _
    · exact hR.pure _
  refine hR.bind hR.advance fun _ => hR.accept_bind fun _ => hR.bind name fun _ => ?_
  exact hR.bind (h .parameters) fun _ => hR.bind hblock fun _ => hR.pure _

theorem memberValue (hR : Congruence R) (h : p.Related R r) (hblock : R none block Rule.skipBlock)
    (kind : PropertyKind) (isAsync generator : Bool) (key : Key) (shorthand : Option String) :
    R none (Rule.memberValueWith block p kind isAsync generator key shorthand)
      (Rule.memberValue r kind isAsync generator key shorthand) := by
  have value : R none (do
      if ← Parse.accept .colon then
        return .keyed key (← p.assignment) .init false
      match shorthand with
      | some name => return .keyed key (← Rule.shorthandValue p name) .init true
      | none => Parse.fail .propertyColon : Parse Property) (do
      if ← Parse.accept .colon then
        return .keyed key (← r.assignment) .init false
      match shorthand with
      | some name => return .keyed key (← Rule.shorthandValue r name) .init true
      | none => Parse.fail .propertyColon) := by
    refine hR.accept_bind fun _ => branch (hR.bind (h .assignment) fun _ => hR.pure _) ?_
    cases shorthand with
    | none => exact hR.fail nofun
    | some name => exact hR.bind (hR.shorthandValue h name) fun _ => hR.pure _
  refine hR.bind (hR.check _) fun _ => branch ?_ ?_
  · exact hR.bind (h .parameters) fun _ => hR.bind hblock fun _ => hR.pure _
  · exact branch (hR.bind (hR.fail nofun) fun _ => value) value

theorem objectMemberRule (hR : Congruence R) (h : p.Related R r) (hlook : p.Lookahead R r)
    (hblock : R none block Rule.skipBlock) :
    R none (Rule.objectMemberWith block p) (Rule.objectMember r) := by
  refine hR.accept_bind fun _ => branch (hR.bind (h .assignment) fun _ => hR.pure _) ?_
  refine hR.bind hlook.modifier fun m => hR.accept_bind fun generator => ?_
  exact hR.bind (h .propertyKey) fun k => hR.memberValue h hblock _ _ _ _ _

/-- Rules are related if those they call are, and what they pass over blocks with. -/
theorem step (hR : Congruence R) (h : p.Related R r) (hw : r.Writes) (hlook : p.Lookahead R r)
    (hblock : R none block Rule.skipBlock) : (p.stepWith block).Related R r.step := fun
  | .sequence => hR.sequenceRule h hw
  | .assignment => hR.assignmentRule h hw
  | .conditional => hR.conditionalRule h
  | .binary minPrecedence => hR.binaryRule h hw minPrecedence
  | .exponent => hR.exponentRule h hw
  | .unary => hR.unaryRule h hw hlook
  | .operand => hR.operandRule h
  | .suffixes allowCalls object =>
    hR.chain (hR.suffix h allowCalls) (.of_written (hw.suffix allowCalls)) object
  | .construction => hR.constructionRule h hw
  | .arguments => hR.argumentsRule h hw
  | .primary => hR.primaryRule h hlook
  | .asyncFunction? => hlook.asyncFunction?
  | .parenthesized isAsync => hlook.parenthesized isAsync
  | .arrowBody isAsync params => hR.arrowBodyRule h hblock isAsync params
  | .functionExpression isAsync => hR.functionExpressionRule h hblock isAsync
  | .parameters => hR.parametersRule h hw
  | .bindingElement => hR.bindingElementRule h
  | .bindingTarget => hR.bindingTargetRule h
  | .arrayPattern => hR.arrayPatternRule h hw
  | .objectPattern => hR.objectPatternRule h hw
  | .arrayLiteral => hR.arrayLiteralRule h hw
  | .objectLiteral => hR.objectLiteralRule h hw
  | .objectMember => hR.objectMemberRule h hlook hblock
  | .propertyKey => hR.propertyKeyRule h
  | .templateLiteral => hR.templateLiteralRule h hw

end

/-- Rules that pass over blocks in the same way. -/
theorem step_skipBlock (hR : Congruence R) (h : p.Related R r) (hw : r.Writes)
    (hlook : p.Lookahead R r) (hblock : R none Rule.skipBlock Rule.skipBlock) :
    p.step.Related R r.step :=
  p.stepWith_skipBlock ▸ hR.step h hw hlook hblock

theorem exhausted (hR : Congruence R)
    (hfail : ∀ {α : Type}, R none (Parse.fail .outOfSteps : Parse α) (Parse.fail .outOfSteps)) :
    Rules.exhausted.Related R .exhausted := fun c => by
  cases c <;> exact hR.anywhere hfail

/-- The rules for chains of any number of calls are related to themselves. -/
theorem rules (hR : Congruence R)
    (hfail : ∀ {α : Type}, R none (Parse.fail .outOfSteps : Parse α) (Parse.fail .outOfSteps))
    (hblock : R none Rule.skipBlock Rule.skipBlock)
    (hlook : ∀ r : Rules, r.Related R r → r.Writes → r.Lookahead R r) (n : Nat) :
    (Grammar.rules n).Related R (Grammar.rules n) := by
  induction n with
  | zero => exact hR.exhausted hfail
  | succ n ih =>
    exact hR.step_skipBlock ih (rules_write n) (hlook _ ih (rules_write n)) hblock

/-! ### Looking ahead -/

/-- Rules are related also where they look further ahead if it makes no difference where a
token is looked at. -/
theorem lookahead (hR : Congruence R) (h : p.Related R r)
    (hahead : ∀ n, R none (Parse.ahead n) (Parse.ahead n))
    (hget : ∀ {β : Type} {f g : Bool → Parse β} (v : List Token → Bool),
      (∀ b, R none (f b) (g b)) →
        R none (MonadState.get >>= fun s : Stream => f (v s.rest))
          (MonadState.get >>= fun s : Stream => g (v s.rest))) : p.Lookahead R r where
  postfixUpdate := by
    refine hR.bind (h .operand) fun _ => hR.bind (hahead 0) fun t => ?_
    split
    · exact branch (hR.pure _) (hR.bind hR.advance fun _ => hR.pure _)
    · exact hR.pure _
  nameOrArrow name := by
    refine hR.bind (hahead 1) fun _ => hR.bind hR.advance fun _ => branch ?_ (hR.pure _)
    exact hR.bind hR.advance fun _ => h (.arrowBody false _)
  asyncFunction? := by
    refine hR.anywhere (hR.bind (hahead 1) fun next => branch (hR.pure _) ?_)
    split
    · exact hR.bind hR.advance fun _ => hR.bind (h (.functionExpression true)) fun _ => hR.pure _
    · refine hR.bind (hahead 2) fun _ => branch (hR.bind hR.advance fun _ =>
        hR.bind hR.advance fun _ => hR.bind hR.advance fun _ => ?_) (hR.pure _)
      exact hR.bind (h (.arrowBody true _)) fun _ => hR.pure _
    · refine hget (f := fun b => if b = true then _ else _)
        (g := fun b => if b = true then _ else _)
        (fun ts => arrowFollows (ts.drop 1)) fun _ => branch (hR.bind hR.advance fun _ => ?_)
          (hR.pure _)
      exact hR.bind (h (.parenthesized true)) fun _ => hR.pure _
    · exact hR.pure _
  parenthesized isAsync := by
    refine hget (f := fun b => if b = true then _ else _)
      (g := fun b => if b = true then _ else _) arrowFollows fun _ => branch ?_ ?_
    · refine hR.bind (h .parameters) fun params => hR.expect_bind ?_
      exact h (.arrowBody isAsync params)
    · refine hR.bind hR.advance fun _ => hR.bind (h .sequence) fun _ => ?_
      exact hR.expect_bind (hR.pure _)
  modifier := by
    refine hR.kind_bind (fun k => ?_) fun _ _ => .inl rfl
    split
    · split
      · exact hR.bind (hahead 1) fun _ => branch (hR.bind hR.advance fun _ => hR.pure _) (hR.pure _)
      · exact hR.pure _
    · exact hR.pure _

end Congruence

end TemplateVars
