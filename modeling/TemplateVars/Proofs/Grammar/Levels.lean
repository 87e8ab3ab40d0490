/-
The steps given to the grammar suffice.

A rule calls others at its own nesting level only down a fixed order, so a level
takes fewer than `callsPerLevel` nested calls, and there are no more than
`maxDepth` levels.

* `Rules.AgreeUpTo.step` — rules that agree as long as `n` steps suffice call
  each other to rules that agree as long as `n + 1` do;
* `rules_agree` — one more step than is needed changes nothing;
* `grammar_step` — the rules of the grammar call the rules of the grammar.

Design notes: the number at each field of `Rules.AgreeUpTo` is the place of the
rule in the order.  A rule that opens a level before it calls anything comes
first; infix operators come by precedence, the tightest first.
-/
import TemplateVars.Proofs.Grammar.Triple

namespace TemplateVars

/-- The stream that a reader leaves, whether it succeeds or fails. -/
def Parse.left {α : Type} (p : Parse α) (s : Stream) : Stream :=
  match p s with
  | .ok _ t => t
  | .error _ t => t

/-- Whether two readers do the same at a nesting level, and stay at it. -/
def AgreeAt {α : Type} (d : Nat) (p q : Parse α) : Prop :=
  ∀ s : Stream, s.depth = d → p s = q s ∧ (p.left s).depth = d

theorem advance_depth (s : Stream) : s.advance.depth = s.depth := by
  unfold Stream.advance
  split <;> rfl

namespace AgreeAt

variable {α β : Type} {d : Nat} {p q : Parse α}

/-- A reader that never changes the depth agrees with itself. -/
theorem refl (h : ∀ s : Stream, (p.left s).depth = s.depth) : AgreeAt d p p :=
  fun s hs => ⟨rfl, (h s).trans hs⟩

theorem pure (a : α) : AgreeAt d (Pure.pure a) (Pure.pure a) := refl fun _ => rfl

theorem fail (cause : SyntaxError) : AgreeAt d (Parse.fail cause : Parse α) (Parse.fail cause) :=
  refl fun _ => rfl

theorem kind : AgreeAt d Parse.kind Parse.kind := refl fun _ => rfl

theorem ahead (n : Nat) : AgreeAt d (Parse.ahead n) (Parse.ahead n) := refl fun _ => rfl

theorem get : AgreeAt d (MonadState.get : Parse Stream) MonadState.get := refl fun _ => rfl

theorem advance : AgreeAt d Parse.advance Parse.advance := refl advance_depth

theorem check (mark : Punctuator) : AgreeAt d (Parse.check mark) (Parse.check mark) :=
  refl fun _ => rfl

theorem accept (mark : Punctuator) : AgreeAt d (Parse.accept mark) (Parse.accept mark) := by
  refine refl fun s => ?_
  unfold Parse.left Parse.accept
  split
  · next h =>
    split at h
    · obtain ⟨-, rfl⟩ := EStateM.Result.ok.inj h
      exact advance_depth s
    · obtain ⟨-, rfl⟩ := EStateM.Result.ok.inj h
      rfl
  · next h => split at h <;> exact nomatch h

theorem expect (wanted : Expected) : AgreeAt d (Parse.expect wanted) (Parse.expect wanted) := by
  refine refl fun s => ?_
  unfold Parse.left Parse.expect
  by_cases h : s.current.kind = .punct wanted.mark
  · simp only [h, ↓reduceIte]
    exact advance_depth s
  · simp only [h, ↓reduceIte]

theorem bind {f g : α → Parse β} (hp : AgreeAt d p q) (hf : ∀ a, AgreeAt d (f a) (g a)) :
    AgreeAt d (p >>= f) (q >>= g) := by
  intro s hs
  obtain ⟨hpq, hdepth⟩ := hp s hs
  unfold Parse.left at hdepth ⊢
  cases hps : p s with
  | ok a t =>
    rw [hps] at hpq hdepth
    rw [Parse.bind_of_ok hps, Parse.bind_of_ok hpq.symm]
    exact hf a t hdepth
  | error e t =>
    rw [hps] at hpq hdepth
    rw [Parse.bind_of_error hps, Parse.bind_of_error hpq.symm]
    exact ⟨rfl, hdepth⟩

theorem ite {c : Prop} [Decidable c] {p' q' : Parse α} (hp : AgreeAt d p q)
    (hp' : AgreeAt d p' q') : AgreeAt d (if c then p else p') (if c then q else q') := by
  by_cases hc : c
  · rw [if_pos hc, if_pos hc]
    exact hp
  · rw [if_neg hc, if_neg hc]
    exact hp'

/-- A level deeper, readers need to agree only if there is such a level. -/
theorem nested (h : d < maxDepth → AgreeAt (d + 1) p q) :
    AgreeAt d (Parse.nested p) (Parse.nested q) := by
  intro s hs
  unfold Parse.left Parse.nested
  by_cases hdeep : maxDepth ≤ s.depth
  · rw [if_pos hdeep, if_pos hdeep]
    exact ⟨rfl, hs⟩
  · rw [if_neg hdeep, if_neg hdeep]
    obtain ⟨hpq, hdepth⟩ := h (by omega) { s with depth := s.depth + 1 } (by rw [← hs])
    unfold Parse.left at hdepth
    rw [← hpq]
    refine ⟨rfl, ?_⟩
    -- the reader gives the level back on either way out
    cases hps : p { s with depth := s.depth + 1 } with
    | ok a t => rw [hps] at hdepth; exact Nat.sub_eq_of_eq_add hdepth
    | error e t => rw [hps] at hdepth; exact Nat.sub_eq_of_eq_add hdepth

theorem collect {round round' : Parse (Parse.Item α)} (h : AgreeAt d round round') :
    AgreeAt d (Parse.collect round) (Parse.collect round') := by
  intro s hs
  have hround := h s hs
  unfold Parse.left at hround ⊢
  fun_induction Parse.collect round s with
  | case1 s e t hr =>
    rw [hr] at hround
    exact ⟨(Parse.collect_of_error hround.1.symm).symm, hround.2⟩
  | case2 s t hr =>
    rw [hr] at hround
    exact ⟨(Parse.collect_of_stop hround.1.symm).symm, hround.2⟩
  | case3 s a t hr =>
    rw [hr] at hround
    exact ⟨(Parse.collect_of_last hround.1.symm).symm, hround.2⟩
  | case4 s a t hr hlt as u hrest ih =>
    rw [hr] at hround
    obtain ⟨hrec, hdepth⟩ := ih hround.2 (h t hround.2)
    rw [hrest] at hrec hdepth
    refine ⟨?_, hdepth⟩
    rw [Parse.collect_of_more hround.1.symm hlt, Parse.bind_of_ok hrec.symm]
    rfl
  | case5 s a t hr hlt e u hrest ih =>
    rw [hr] at hround
    obtain ⟨hrec, hdepth⟩ := ih hround.2 (h t hround.2)
    rw [hrest] at hrec hdepth
    refine ⟨?_, hdepth⟩
    rw [Parse.collect_of_more hround.1.symm hlt, Parse.bind_of_error hrec.symm]
  | case6 s a t hr hstuck =>
    rw [hr] at hround
    exact ⟨(Parse.collect_of_stuck hround.1.symm hstuck).symm, hround.2⟩

theorem chain {link link' : α → Parse (Option α)} (h : ∀ a, AgreeAt d (link a) (link' a))
    (a : α) : AgreeAt d (Parse.chain link a) (Parse.chain link' a) := by
  intro s hs
  have hlink := h a s hs
  unfold Parse.left at hlink ⊢
  fun_induction Parse.chain link a s with
  | case1 a s e t hr =>
    rw [hr] at hlink
    exact ⟨(Parse.chain_of_error hlink.1.symm).symm, hlink.2⟩
  | case2 a s t hr =>
    rw [hr] at hlink
    exact ⟨(Parse.chain_of_none hlink.1.symm).symm, hlink.2⟩
  | case3 a s b t hr hlt ih =>
    rw [hr] at hlink
    obtain ⟨hrec, hdepth⟩ := ih hlink.2 (h b t hlink.2)
    exact ⟨hrec.trans (Parse.chain_of_some hlink.1.symm hlt).symm, hdepth⟩
  | case4 a s b t hr hstuck =>
    rw [hr] at hlink
    exact ⟨(Parse.chain_of_stuck hlink.1.symm hstuck).symm, hlink.2⟩

theorem skipBlock : AgreeAt d Rule.skipBlock Rule.skipBlock := by
  rw [Rule.skipBlock_eq]
  refine bind (expect _) fun _ => refl fun s => ?_
  rw [Parse.left, Rule.restOfBlock]
  rcases closeBlock 0 s.rest with ⟨_ | _, rest⟩ <;> rfl

end AgreeAt

/-- The steps that the levels below a depth may take. -/
def levelCost (d : Nat) : Nat := Grammar.callsPerLevel * (maxDepth - d)

theorem levelCost_succ {d : Nat} (h : d < maxDepth) : levelCost (d + 1) + 32 = levelCost d := by
  unfold levelCost Grammar.callsPerLevel
  omega

/-- Whether two sets of rules agree wherever `n` steps suffice, if the levels below a
depth take `cost` steps. -/
structure Rules.AgreeUpTo (cost : Nat → Nat) (n : Nat) (r r' : Rules) : Prop where
  deeper {d : Nat} (hd : d < maxDepth) : cost (d + 1) + 32 ≤ cost d
  assignment {d : Nat} (hd : cost d + 1 ≤ n) : AgreeAt d r.assignment r'.assignment
  construction {d : Nat} (hd : cost d + 1 ≤ n) : AgreeAt d r.construction r'.construction
  bindingTarget {d : Nat} (hd : cost d + 1 ≤ n) : AgreeAt d r.bindingTarget r'.bindingTarget
  sequence {d : Nat} (hd : cost d + 2 ≤ n) : AgreeAt d r.sequence r'.sequence
  arrowBody {d : Nat} (hd : cost d + 2 ≤ n) (isAsync : Bool) (params : List Pattern) :
    AgreeAt d (r.arrowBody isAsync params) (r'.arrowBody isAsync params)
  arguments {d : Nat} (hd : cost d + 2 ≤ n) : AgreeAt d r.arguments r'.arguments
  arrayLiteral {d : Nat} (hd : cost d + 2 ≤ n) : AgreeAt d r.arrayLiteral r'.arrayLiteral
  propertyKey {d : Nat} (hd : cost d + 2 ≤ n) : AgreeAt d r.propertyKey r'.propertyKey
  bindingElement {d : Nat} (hd : cost d + 2 ≤ n) :
    AgreeAt d r.bindingElement r'.bindingElement
  templateLiteral {d : Nat} (hd : cost d + 3 ≤ n) :
    AgreeAt d r.templateLiteral r'.templateLiteral
  parameters {d : Nat} (hd : cost d + 3 ≤ n) : AgreeAt d r.parameters r'.parameters
  arrayPattern {d : Nat} (hd : cost d + 3 ≤ n) : AgreeAt d r.arrayPattern r'.arrayPattern
  objectPattern {d : Nat} (hd : cost d + 3 ≤ n) :
    AgreeAt d r.objectPattern r'.objectPattern
  functionExpression {d : Nat} (hd : cost d + 4 ≤ n) (isAsync : Bool) :
    AgreeAt d (r.functionExpression isAsync) (r'.functionExpression isAsync)
  objectMember {d : Nat} (hd : cost d + 4 ≤ n) : AgreeAt d r.objectMember r'.objectMember
  parenthesized {d : Nat} (hd : cost d + 4 ≤ n) (isAsync : Bool) :
    AgreeAt d (r.parenthesized isAsync) (r'.parenthesized isAsync)
  suffixes {d : Nat} (hd : cost d + 4 ≤ n) (allowCalls : Bool) (object : Expr) :
    AgreeAt d (r.suffixes allowCalls object) (r'.suffixes allowCalls object)
  objectLiteral {d : Nat} (hd : cost d + 5 ≤ n) :
    AgreeAt d r.objectLiteral r'.objectLiteral
  asyncFunction? {d : Nat} (hd : cost d + 5 ≤ n) :
    AgreeAt d r.asyncFunction? r'.asyncFunction?
  primary {d : Nat} (hd : cost d + 6 ≤ n) : AgreeAt d r.primary r'.primary
  operand {d : Nat} (hd : cost d + 7 ≤ n) : AgreeAt d r.operand r'.operand
  unary {d : Nat} (hd : cost d + 8 ≤ n) : AgreeAt d r.unary r'.unary
  exponent {d : Nat} (hd : cost d + 9 ≤ n) : AgreeAt d r.exponent r'.exponent
  binary {d : Nat} {minPrecedence : Nat} (hd : cost d + 10 + (11 - minPrecedence) ≤ n) :
    AgreeAt d (r.binary minPrecedence) (r'.binary minPrecedence)
  conditional {d : Nat} (hd : cost d + 21 ≤ n) : AgreeAt d r.conditional r'.conditional

namespace Rules.AgreeUpTo

variable {cost : Nat → Nat} {n d : Nat} {r r' : Rules}

theorem assignmentRule (h : r.AgreeUpTo cost n r') (hd : cost d + 1 ≤ n + 1) :
    AgreeAt d (Rule.assignment r) (Rule.assignment r') := by
  refine .nested fun hdeep => ?_
  -- one level deeper there are 32 steps more than before for each rule
  have hcost := h.deeper hdeep
  refine .bind (h.conditional (by omega)) fun target => .bind .kind fun k => ?_
  split
  · exact .bind .advance fun _ => .bind (h.assignment (by omega)) fun value => .pure _
  · exact .pure _

theorem constructionRule (h : r.AgreeUpTo cost n r') (hd : cost d + 1 ≤ n + 1) :
    AgreeAt d (Rule.construction r) (Rule.construction r') := by
  refine .nested fun hdeep => ?_
  have hcost := h.deeper hdeep
  have callee : ∀ base, AgreeAt (d + 1) (do
      let callee ← r.suffixes false base
      if ← Parse.check .leftParen then return Expr.new callee (← r.arguments)
      else return Expr.new callee []) (do
      let callee ← r'.suffixes false base
      if ← Parse.check .leftParen then return Expr.new callee (← r'.arguments)
      else return Expr.new callee []) := by
    intro base
    refine .bind (h.suffixes (by omega) false base) fun callee => .bind (.check _) fun b => ?_
    exact .ite (.bind (h.arguments (by omega)) fun args => .pure _) (.pure _)
  refine .bind .advance fun _ => .bind (.accept _) fun _ => .ite ?_ ?_
  · exact .bind .kind fun k => .ite (.bind .advance fun _ => .pure _) (.fail _)
  · refine .bind .kind fun k => .ite ?_ ?_
    · exact .bind (h.construction (by omega)) callee
    · exact .bind (h.primary (by omega)) callee

theorem bindingTargetRule (h : r.AgreeUpTo cost n r') (hd : cost d + 1 ≤ n + 1) :
    AgreeAt d (Rule.bindingTarget r) (Rule.bindingTarget r') := by
  refine .bind .kind fun k => ?_
  split
  · exact .bind .advance fun _ => .pure _
  · refine .nested fun hdeep => h.arrayPattern ?_
    have := h.deeper hdeep
    omega
  · refine .nested fun hdeep => h.objectPattern ?_
    have := h.deeper hdeep
    omega
  · exact .fail _

theorem sequenceRule (h : r.AgreeUpTo cost n r') (hd : cost d + 2 ≤ n + 1) :
    AgreeAt d (Rule.sequence r) (Rule.sequence r') := by
  have hassignment : AgreeAt d r.assignment r'.assignment := h.assignment (by omega)
  refine .bind hassignment fun first => .bind (.collect ?_) fun rest => ?_
  · exact .bind (.accept _) fun b => .ite (.bind hassignment fun e => .pure _) (.pure _)
  · split
    · exact .pure _
    · exact .pure _

theorem arrowBodyRule (h : r.AgreeUpTo cost n r') (hd : cost d + 2 ≤ n + 1) (isAsync : Bool)
    (params : List Pattern) :
    AgreeAt d (Rule.arrowBody r isAsync params) (Rule.arrowBody r' isAsync params) := by
  refine .bind (.check _) fun b => .ite ?_ ?_
  · exact .bind .skipBlock fun _ => .pure _
  · exact .bind (h.assignment (by omega)) fun e => .pure _

theorem spreadable (h : r.AgreeUpTo cost n r') (hd : cost d + 1 ≤ n) :
    AgreeAt d (Rule.spreadable r) (Rule.spreadable r') :=
  .bind (.accept _) fun _ =>
    .ite (.bind (h.assignment hd) fun _ => .pure _) (h.assignment hd)

theorem argumentsRule (h : r.AgreeUpTo cost n r') (hd : cost d + 2 ≤ n + 1) :
    AgreeAt d (Rule.arguments r) (Rule.arguments r') := by
  refine .bind .advance fun _ => .bind (.collect ?_) fun args => .bind (.expect _) fun _ => .pure _
  refine .bind (.check _) fun b => .ite (.pure _) (.bind (h.spreadable (by omega)) fun a => ?_)
  exact .bind (.accept _) fun b => .ite (.pure _) (.pure _)

theorem arrayLiteralRule (h : r.AgreeUpTo cost n r') (hd : cost d + 2 ≤ n + 1) :
    AgreeAt d (Rule.arrayLiteral r) (Rule.arrayLiteral r') := by
  refine .bind .advance fun _ => .bind (.collect ?_) fun es => .pure _
  refine .bind (.accept _) fun b => .ite (.pure _) (.bind (.accept _) fun b => .ite (.pure _) ?_)
  refine .bind (h.spreadable (by omega)) fun a => .bind (.check _) fun b => .ite ?_ (.pure _)
  exact .bind (.expect _) fun _ => .pure _

theorem propertyKeyRule (h : r.AgreeUpTo cost n r') (hd : cost d + 2 ≤ n + 1) :
    AgreeAt d (Rule.propertyKey r) (Rule.propertyKey r') := by
  refine .bind .kind fun k => ?_
  split
  · exact .bind .advance fun _ => .pure _
  · refine .bind .advance fun _ => .bind (h.assignment (by omega)) fun e => ?_
    exact .bind (.expect _) fun _ => .pure _
  · split
    · exact .bind .advance fun _ => .pure _
    · exact .fail _

theorem withDefault (h : r.AgreeUpTo cost n r') (hd : cost d + 1 ≤ n) (target : Pattern) :
    AgreeAt d (Rule.withDefault r target) (Rule.withDefault r' target) := by
  refine .bind .kind fun k => .ite (.bind .advance fun _ => ?_) (.pure _)
  exact .bind (h.assignment hd) fun e => .pure _

theorem bindingElementRule (h : r.AgreeUpTo cost n r') (hd : cost d + 2 ≤ n + 1) :
    AgreeAt d (Rule.bindingElement r) (Rule.bindingElement r') :=
  .bind (h.bindingTarget (by omega)) fun target => h.withDefault (by omega) target

theorem substitution (h : r.AgreeUpTo cost n r') (hd : cost d + 2 ≤ n) :
    AgreeAt d (Rule.substitution r) (Rule.substitution r') := by
  refine .bind (h.sequence hd) fun e => .bind .kind fun k => ?_
  split
  · exact .bind .advance fun _ => .pure _
  · exact .bind .advance fun _ => .pure _
  · exact .fail _

theorem templateLiteralRule (h : r.AgreeUpTo cost n r') (hd : cost d + 3 ≤ n + 1) :
    AgreeAt d (Rule.templateLiteral r) (Rule.templateLiteral r') := by
  refine .bind .kind fun k => ?_
  split
  · exact .bind .advance fun _ => .pure _
  · refine .bind .advance fun _ => .bind (.collect ?_) fun parts => .pure _
    exact h.substitution (by omega)
  · exact .fail _

theorem parametersRule (h : r.AgreeUpTo cost n r') (hd : cost d + 3 ≤ n + 1) :
    AgreeAt d (Rule.parameters r) (Rule.parameters r') := by
  refine .bind (.expect _) fun _ => .bind (.collect ?_) fun ps => .bind (.expect _) fun _ => .pure _
  refine .bind (.check _) fun b => .ite (.pure _) (.bind (.accept _) fun b => .ite ?_ ?_)
  · exact .bind (h.bindingTarget (by omega)) fun t => .pure _
  · refine .bind (h.bindingElement (by omega)) fun p => .bind (.accept _) fun b => ?_
    exact .ite (.pure _) (.pure _)

theorem arrayPatternRule (h : r.AgreeUpTo cost n r') (hd : cost d + 3 ≤ n + 1) :
    AgreeAt d (Rule.arrayPattern r) (Rule.arrayPattern r') := by
  refine .bind .advance fun _ => .bind (.collect ?_) fun es => .pure _
  refine .bind (.accept _) fun b => .ite (.pure _) (.bind (.accept _) fun b => .ite (.pure _) ?_)
  refine .bind (.accept _) fun b => .ite ?_ ?_
  · refine .bind (h.bindingTarget (by omega)) fun t => .bind (.expect _) fun _ => .pure _
  · refine .bind (h.bindingElement (by omega)) fun p => .bind (.check _) fun b => ?_
    exact .ite (.bind (.expect _) fun _ => .pure _) (.pure _)

theorem patternProperty (h : r.AgreeUpTo cost n r') (hd : cost d + 2 ≤ n) :
    AgreeAt d (Rule.patternProperty r) (Rule.patternProperty r') := by
  refine .bind (.accept _) fun b => .ite ?_ ?_
  · exact .bind (h.bindingTarget (by omega)) fun t => .pure _
  · refine .bind (h.propertyKey hd) fun k => .bind (.accept _) fun b => .ite ?_ ?_
    · exact .bind (h.bindingElement hd) fun p => .pure _
    · split
      · exact .bind (h.withDefault (by omega) _) fun p => .pure _
      · exact .fail _

theorem objectPatternRule (h : r.AgreeUpTo cost n r') (hd : cost d + 3 ≤ n + 1) :
    AgreeAt d (Rule.objectPattern r) (Rule.objectPattern r') := by
  refine .bind .advance fun _ => .bind (.collect ?_) fun ps => .bind (.expect _) fun _ => .pure _
  refine .bind (.check _) fun b => .ite (.pure _) ?_
  refine .bind (h.patternProperty (by omega)) fun p => .bind (.accept _) fun b => ?_
  exact .ite (.pure _) (.pure _)

theorem functionExpressionRule (h : r.AgreeUpTo cost n r') (hd : cost d + 4 ≤ n + 1)
    (isAsync : Bool) :
    AgreeAt d (Rule.functionExpression r isAsync) (Rule.functionExpression r' isAsync) := by
  have name : AgreeAt d Rule.functionName? Rule.functionName? := by
    refine .bind .kind fun k => ?_
    split
    · exact .bind .advance fun _ => .pure _
    · exact .pure _
  refine .bind .advance fun _ => .bind (.accept _) fun _ => .bind name fun _ => ?_
  exact .bind (h.parameters (by omega)) fun params => .bind .skipBlock fun _ => .pure _

theorem shorthandValue (h : r.AgreeUpTo cost n r') (hd : cost d + 1 ≤ n) (name : String) :
    AgreeAt d (Rule.shorthandValue r name) (Rule.shorthandValue r' name) := by
  refine .bind .kind fun k => .ite (.bind .advance fun _ => ?_) (.pure _)
  exact .bind (h.assignment hd) fun e => .pure _

theorem memberValue (h : r.AgreeUpTo cost n r') (hd : cost d + 3 ≤ n) (kind : PropertyKind)
    (isAsync generator : Bool) (key : Key) (shorthand : Option String) :
    AgreeAt d (Rule.memberValue r kind isAsync generator key shorthand)
      (Rule.memberValue r' kind isAsync generator key shorthand) := by
  refine .bind (.check _) fun b => .ite ?_ ?_
  · exact .bind (h.parameters hd) fun params => .bind .skipBlock fun _ => .pure _
  suffices value : _ from .ite (.bind (.fail _) fun _ => value) value
  refine .bind (.accept _) fun b => .ite ?_ ?_
  · exact .bind (h.assignment (by omega)) fun e => .pure _
  · cases shorthand with
    | none => exact .fail _
    | some name => exact .bind (h.shorthandValue (by omega) name) fun e => .pure _

theorem objectMemberRule (h : r.AgreeUpTo cost n r') (hd : cost d + 4 ≤ n + 1) :
    AgreeAt d (Rule.objectMember r) (Rule.objectMember r') := by
  have modifier : AgreeAt d Rule.modifier Rule.modifier := by
    refine .bind .kind fun k => ?_
    split
    · split
      · exact .bind (.ahead _) fun t => .ite (.bind .advance fun _ => .pure _) (.pure _)
      · exact .pure _
    · exact .pure _
  refine .bind (.accept _) fun b => .ite (.bind (h.assignment (by omega)) fun e => .pure _) ?_
  refine .bind modifier fun m => .bind (.accept _) fun generator => ?_
  exact .bind (h.propertyKey (by omega)) fun k => h.memberValue (by omega) _ _ _ _ _

theorem objectLiteralRule (h : r.AgreeUpTo cost n r') (hd : cost d + 5 ≤ n + 1) :
    AgreeAt d (Rule.objectLiteral r) (Rule.objectLiteral r') := by
  refine .bind .advance fun _ => .bind (.collect ?_) fun ps => .bind (.expect _) fun _ => .pure _
  refine .bind (.check _) fun b => .ite (.pure _) ?_
  refine .bind (h.objectMember (by omega)) fun p => .bind (.accept _) fun b => ?_
  exact .ite (.pure _) (.pure _)

theorem parenthesizedRule (h : r.AgreeUpTo cost n r') (hd : cost d + 4 ≤ n + 1) (isAsync : Bool) :
    AgreeAt d (Rule.parenthesized r isAsync) (Rule.parenthesized r' isAsync) := by
  refine .bind .get fun s => .ite ?_ ?_
  · refine .bind (h.parameters (by omega)) fun params => .bind (.expect _) fun _ => ?_
    exact h.arrowBody (by omega) isAsync params
  · refine .bind .advance fun _ => .bind (h.sequence (by omega)) fun e => ?_
    exact .bind (.expect _) fun _ => .pure _

theorem suffix (h : r.AgreeUpTo cost n r') (hd : cost d + 3 ≤ n) (allowCalls : Bool)
    (object : Expr) :
    AgreeAt d (Rule.suffix r allowCalls object) (Rule.suffix r' allowCalls object) := by
  have name : AgreeAt d Rule.memberName Rule.memberName := by
    refine .bind .kind fun k => ?_
    split
    · exact .bind .advance fun _ => .pure _
    · exact .bind .advance fun _ => .pure _
    · exact .fail _
  have computed : AgreeAt d (Rule.computedMember r) (Rule.computedMember r') :=
    .bind .advance fun _ => .bind (h.sequence (by omega)) fun _ => .bind (.expect _) fun _ =>
      .pure _
  have arguments : AgreeAt d r.arguments r'.arguments := h.arguments (by omega)
  refine .bind .kind fun k => ?_
  split
  · exact .bind .advance fun _ => .bind name fun _ => .pure _
  · refine .ite (.pure _) (.bind .advance fun _ => .bind .kind fun k => ?_)
    split
    · exact .bind arguments fun _ => .pure _
    · exact .bind computed fun _ => .pure _
    · exact .bind name fun _ => .pure _
  · exact .bind computed fun _ => .pure _
  · exact .ite (.pure _) (.bind arguments fun _ => .pure _)
  · exact .bind (h.templateLiteral hd) fun _ => .pure _
  · exact .bind (h.templateLiteral hd) fun _ => .pure _
  · exact .pure _

theorem asyncFunctionRule (h : r.AgreeUpTo cost n r') (hd : cost d + 5 ≤ n + 1) :
    AgreeAt d (Rule.asyncFunction? r) (Rule.asyncFunction? r') := by
  refine .bind (.ahead _) fun next => .ite (.pure _) ?_
  split
  · refine .bind .advance fun _ => .bind (h.functionExpression (by omega) true) fun _ => .pure _
  · refine .bind (.ahead _) fun t => .ite (.bind .advance fun _ => .bind .advance fun _ =>
      .bind .advance fun _ => ?_) (.pure _)
    exact .bind (h.arrowBody (by omega) true _) fun _ => .pure _
  · refine .bind .get fun s => .ite (.bind .advance fun _ => ?_) (.pure _)
    exact .bind (h.parenthesized (by omega) true) fun _ => .pure _
  · exact .pure _

theorem primaryRule (h : r.AgreeUpTo cost n r') (hd : cost d + 6 ≤ n + 1) :
    AgreeAt d (Rule.primary r) (Rule.primary r') := by
  have literal : ∀ value, AgreeAt d (do
      Parse.advance
      return Expr.literal value) (do
      Parse.advance
      return Expr.literal value) :=
    fun value => .bind .advance fun _ => .pure _
  refine .bind .kind fun k => ?_
  simp only []
  split
  · next name =>
    suffices rest : _ from .ite (.bind (h.asyncFunction? (by omega)) rest) (.bind (.pure _) rest)
    intro f
    cases f with
    | some e => exact .pure _
    | none =>
      refine .bind (.ahead _) fun next => .bind .advance fun _ => .ite ?_ (.pure _)
      exact .bind .advance fun _ => h.arrowBody (by omega) false _
  · exact literal _
  · exact literal _
  · exact literal _
  · exact literal _
  · exact literal _
  · exact literal _
  · exact literal _
  · exact .bind .advance fun _ => .pure _
  · exact .bind .advance fun _ => .pure _
  · exact h.templateLiteral (by omega)
  · exact h.templateLiteral (by omega)
  · exact h.parenthesized (by omega) false
  · exact h.arrayLiteral (by omega)
  · exact h.objectLiteral (by omega)
  · exact h.functionExpression (by omega) false
  · exact .fail _

theorem operandRule (h : r.AgreeUpTo cost n r') (hd : cost d + 7 ≤ n + 1) :
    AgreeAt d (Rule.operand r) (Rule.operand r') := by
  refine .bind .kind fun k => .ite ?_ ?_
  · exact .bind (h.construction (by omega)) fun base => h.suffixes (by omega) true base
  · exact .bind (h.primary (by omega)) fun base => h.suffixes (by omega) true base

theorem unaryRule (h : r.AgreeUpTo cost n r') (hd : cost d + 8 ≤ n + 1) :
    AgreeAt d (Rule.unary r) (Rule.unary r') := by
  have deeper : AgreeAt d (Parse.nested r.unary) (Parse.nested r'.unary) := by
    refine .nested fun hdeep => h.unary ?_
    have := h.deeper hdeep
    omega
  refine .bind .kind fun k => ?_
  split
  · exact .bind .advance fun _ => .bind deeper fun a => .pure _
  · exact .bind .advance fun _ => .bind deeper fun a => .pure _
  · -- no sign in front: the operand is read at the same level
    refine .bind (h.operand (by omega)) fun a => .bind (.ahead _) fun t => ?_
    split
    · exact .ite (.pure _) (.bind .advance fun _ => .pure _)
    · exact .pure _

theorem exponentRule (h : r.AgreeUpTo cost n r') (hd : cost d + 9 ≤ n + 1) :
    AgreeAt d (Rule.exponent r) (Rule.exponent r') := by
  have deeper : AgreeAt d (Parse.nested r.exponent) (Parse.nested r'.exponent) := by
    refine .nested fun hdeep => h.exponent ?_
    have := h.deeper hdeep
    omega
  refine .bind (h.unary (by omega)) fun base => .bind (.accept _) fun b => .ite ?_ (.pure _)
  exact .bind deeper fun e => .pure _

theorem binaryRule (h : r.AgreeUpTo cost n r') {minPrecedence : Nat}
    (hd : cost d + 10 + (11 - minPrecedence) ≤ n + 1) :
    AgreeAt d (Rule.binary r minPrecedence) (Rule.binary r' minPrecedence) := by
  refine .bind (h.exponent (by omega)) fun first => .chain (fun left => .bind .kind fun k => ?_) _
  split
  · next precedence op hop =>
    -- an operator that is taken binds at least as tightly as asked for, so its
    -- right operand comes earlier in the order
    have hprec := (TokenKind.precedence_bounds hop).2
    unfold TokenKind.maxPrecedence at hprec
    by_cases hlt : precedence < minPrecedence
    · rw [if_pos hlt, if_pos hlt]
      exact .pure _
    · rw [if_neg hlt, if_neg hlt]
      exact .bind .advance fun _ => .bind (h.binary (by omega)) fun right => .pure _
  · exact .pure _

theorem conditionalRule (h : r.AgreeUpTo cost n r') (hd : cost d + 21 ≤ n + 1) :
    AgreeAt d (Rule.conditional r) (Rule.conditional r') := by
  have hassignment : AgreeAt d r.assignment r'.assignment := h.assignment (by omega)
  refine .bind (h.binary (by omega)) fun test => .bind (.accept _) fun b => ?_
  refine .ite (.bind hassignment fun c => .bind (.expect _) fun _ => ?_) (.pure _)
  exact .bind hassignment fun a => .pure _

/-- Rules whose calls agree up to `n` steps agree up to one more. -/
theorem step (h : r.AgreeUpTo cost n r') : r.step.AgreeUpTo cost (n + 1) r'.step where
  deeper := h.deeper
  assignment := h.assignmentRule
  construction := h.constructionRule
  bindingTarget := h.bindingTargetRule
  sequence := h.sequenceRule
  arrowBody := h.arrowBodyRule
  arguments := h.argumentsRule
  arrayLiteral := h.arrayLiteralRule
  propertyKey := h.propertyKeyRule
  bindingElement := h.bindingElementRule
  templateLiteral := h.templateLiteralRule
  parameters := h.parametersRule
  arrayPattern := h.arrayPatternRule
  objectPattern := h.objectPatternRule
  functionExpression := h.functionExpressionRule
  objectMember := h.objectMemberRule
  parenthesized := h.parenthesizedRule
  suffixes hd allowCalls object := .chain (h.suffix (by omega) allowCalls) object
  objectLiteral := h.objectLiteralRule
  asyncFunction? := h.asyncFunctionRule
  primary := h.primaryRule
  operand := h.operandRule
  unary := h.unaryRule
  exponent := h.exponentRule
  binary := h.binaryRule
  conditional := h.conditionalRule

/-- With no step left there is nothing to agree on. -/
theorem zero (hcost : ∀ {d : Nat}, d < maxDepth → cost (d + 1) + 32 ≤ cost d) (r r' : Rules) :
    r.AgreeUpTo cost 0 r' := by
  constructor
  case deeper => exact hcost
  all_goals
    intro d
    intros
    omega

/-- Rules that agree for enough steps are the same. -/
theorem eq_of_enough (h : r.AgreeUpTo cost n r') (hn : ∀ d, cost d + 21 ≤ n) : r = r' := by
  have same : ∀ {α : Type} {p q : Parse α},
      (∀ d, cost d + 21 ≤ n → AgreeAt d p q) → p = q :=
    fun hpq => funext fun s => (hpq s.depth (hn s.depth) s rfl).1
  -- field by field; 21 is the greatest number that a field asks for
  cases r
  cases r'
  congr
  · exact same fun d hd => h.sequence (by omega)
  · exact same fun d hd => h.assignment (by omega)
  · exact same fun d hd => h.conditional (by omega)
  · exact funext fun m => same fun d hd => h.binary (by omega)
  · exact same fun d hd => h.exponent (by omega)
  · exact same fun d hd => h.unary (by omega)
  · exact same fun d hd => h.operand (by omega)
  · exact funext fun b => funext fun a => same fun d hd => h.suffixes (by omega) b a
  · exact same fun d hd => h.construction (by omega)
  · exact same fun d hd => h.arguments (by omega)
  · exact same fun d hd => h.primary (by omega)
  · exact same fun d hd => h.asyncFunction? (by omega)
  · exact funext fun b => same fun d hd => h.parenthesized (by omega) b
  · exact funext fun b => funext fun a => same fun d hd => h.arrowBody (by omega) b a
  · exact funext fun b => same fun d hd => h.functionExpression (by omega) b
  · exact same fun d hd => h.parameters (by omega)
  · exact same fun d hd => h.bindingElement (by omega)
  · exact same fun d hd => h.bindingTarget (by omega)
  · exact same fun d hd => h.arrayPattern (by omega)
  · exact same fun d hd => h.objectPattern (by omega)
  · exact same fun d hd => h.arrayLiteral (by omega)
  · exact same fun d hd => h.objectLiteral (by omega)
  · exact same fun d hd => h.objectMember (by omega)
  · exact same fun d hd => h.propertyKey (by omega)
  · exact same fun d hd => h.templateLiteral (by omega)

end Rules.AgreeUpTo

/-! ### The grammar -/

/-- More steps than are needed change nothing. -/
theorem rules_agree (n : Nat) :
    (Grammar.rules n).AgreeUpTo levelCost n (Grammar.rules (n + 1)) := by
  induction n with
  | zero => exact .zero (fun hd => Nat.le_of_eq (levelCost_succ hd)) _ _
  | succ n ih => exact ih.step

/-- The steps given to the grammar are enough at every level. -/
theorem levelCost_le (d : Nat) : levelCost d + 21 ≤ Grammar.callsPerLevel * (maxDepth + 1) := by
  unfold levelCost Grammar.callsPerLevel maxDepth
  omega

/-- The rules of the grammar call the rules of the grammar. -/
theorem grammar_step : Grammar.grammar.step = Grammar.grammar :=
  ((rules_agree _).eq_of_enough levelCost_le).symm

end TemplateVars
