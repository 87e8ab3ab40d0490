/-
Where arrow functions stand.

An arrow function is read as a primary expression.  So it is an operand like any other if
something ends its body, and its head may follow any operator.

* `arrows_across_lines` — if all `=>` are on new lines, the only arrow functions are
  those with one parameter behind `async`;
* `arrows_among_operands` — without parentheses, an arrow function in front of an operator
  has a block for its body, or in front of a member one that ends in `++` or `--`, and one
  behind an operator begins right behind its token.

Design notes: both follow from `Rules.Places`, which says of all nodes of what is read
where arrow functions begin and, if there are no parentheses, what stands next to them.
That nothing reads parameters in parentheses is all that the two have in common, so this
is the only hypothesis.  `async x` takes the `=>` behind it on any line, where the other
forms ask for the same line.
-/
import TemplateVars.Proofs.Grammar.ReadBack.Operators
import TemplateVars.Proofs.Grammar.Shape
import TemplateVars.Proofs.Grammar.Stopping

namespace TemplateVars

open TemplateVars.Part Spelling
open Takes (Anywhere At)

/-! ### Places of arrow functions -/

/-- Whether an arrow function with one parameter in no parentheses begins at a place.
Behind `async` the `=>` may be on a new line. -/
inductive BeginsArrow : Bool → String → List Token → Prop where
  | plain {name : String} {parameter arrow : Token} {rest : List Token}
      (hname : parameter.kind = .identifier name) (harrow : arrow.kind = .punct .arrow)
      (hline : arrow.newlineBefore = false) : BeginsArrow false name (parameter :: arrow :: rest)
  | async {name : String} {word parameter arrow : Token} {rest : List Token}
      (hword : word.kind = .identifier "async") (hname : parameter.kind = .identifier name)
      (hline : parameter.newlineBefore = false) (harrow : arrow.kind = .punct .arrow) :
      BeginsArrow true name (word :: parameter :: arrow :: rest)

/-- Whether a body ends where a member access may follow. -/
inductive Body.EndsEarly : Body → Prop where
  | block : EndsEarly .block
  | update {value : Expr} (h : value.EndsInUpdate) : EndsEarly (.expression value)

/-- Whether an expression in front of an operator is an arrow function only with a block. -/
def Expr.BeforeOperator (e : Expr) : Prop := ∀ b, e.arrowBody? = some b → b = .block

/-- Whether an expression in front of a member, a template or a postfix operator is an arrow
function only if its body ends there. -/
def Expr.BeforeMember (e : Expr) : Prop := ∀ b, e.arrowBody? = some b → b.EndsEarly

/-- Whether an expression is an arrow function only if one begins right behind a token of
some kind. -/
def Expr.BehindToken (ks : List TokenKind) (k : TokenKind) (e : Expr) : Prop :=
  ∀ b, e.arrowBody? = some b → ∃ isAsync name, k :: arrowHead isAsync name <:+: ks

/-- Whether the operands of a node that are arrow functions are where a text without
parentheses has them. -/
def Node.ArrowOperands (ks : List TokenKind) : Node → Prop
  | expr (.binary op left right) => left.BeforeOperator ∧ right.BehindToken ks op.token.kind
  | expr (.logical op left right) => left.BeforeOperator ∧ right.BehindToken ks op.token.kind
  | expr (.unary op argument) => argument.BehindToken ks op.token.kind
  | expr (.update op .before argument) => argument.BehindToken ks op.token.kind
  | expr (.update _ .after argument) => argument.BeforeMember
  | expr (.conditional test _ _) => test.BeforeOperator
  | expr (.assign _ target _) => target.BeforeOperator
  | expr (.member base _ _) => base.BeforeMember
  | expr (.tagged tag _) => tag.BeforeMember
  | expr (.call callee _ _) => callee.arrowBody? = none
  | expr (.new callee _) => callee.BehindToken ks (.keyword .new)
  | _ => True

/-- Whether a node that is an arrow function has the one parameter that some place among
all tokens gives it. -/
def Node.ArrowBegins (all : List Token) : Node → Prop
  | expr (.function .arrow isAsync name params _) =>
    name = none ∧ ∃ x ts, params = [.identifier x] ∧ ts <:+ all ∧ BeginsArrow isAsync x ts
  | _ => True

/-- Whether all arrow functions in a tree, and next to its nodes, stand where they may. -/
def ArrowsPlaced (all : List Token) (root : Node) : Prop :=
  ∀ n : Node, n.Within root →
    n.ArrowBegins all ∧ (ParenFree all → n.ArrowOperands (kinds all))

attribute [simp] Node.children Node.operands Node.listed Node.members Key.expressions

namespace ArrowsPlaced

variable {all : List Token}

theorem of {root : Node} (hbegins : root.ArrowBegins all)
    (hoperands : ParenFree all → root.ArrowOperands (kinds all))
    (hchildren : ∀ n ∈ root.children, ArrowsPlaced all n) : ArrowsPlaced all root := by
  intro n hn
  rcases Relation.ReflTransGen.cases_head hn with rfl | ⟨child, hchild, hn⟩
  · exact ⟨hbegins, hoperands⟩
  · exact hchildren child hchild n hn

/-- A node next to which no arrow function has a place of its own. -/
theorem plain {root : Node} (hbegins : root.ArrowBegins all)
    (hoperands : root.ArrowOperands (kinds all))
    (hchildren : ∀ n ∈ root.children, ArrowsPlaced all n) : ArrowsPlaced all root :=
  of hbegins (fun _ => hoperands) hchildren

variable {left right e : Expr}

theorem apply {k : TokenKind} {p : Nat} {op : InfixOperator} (hk : k.infixOperator? = some (p, op))
    (hl : ArrowsPlaced all (.expr left)) (hr : ArrowsPlaced all (.expr right))
    (hleft : ParenFree all → left.BeforeOperator)
    (hright : ParenFree all → right.BehindToken (kinds all) k) :
    ArrowsPlaced all (.expr (op.apply left right)) := by
  have htoken := Rules.Writes.infix_token hk
  cases op with
  | binary op =>
    rw [htoken] at hright
    exact of trivial (fun hall => ⟨hleft hall, hright hall⟩) (by simp [InfixOperator.apply, hl, hr])
  | logical op =>
    rw [htoken] at hright
    exact of trivial (fun hall => ⟨hleft hall, hright hall⟩) (by simp [InfixOperator.apply, hl, hr])

theorem identifier (name : String) : ArrowsPlaced all (.expr (.identifier name)) :=
  plain trivial trivial nofun

theorem assign {target value : Expr} (op : AssignOperator) (ht : ArrowsPlaced all (.expr target))
    (hv : ArrowsPlaced all (.expr value))
    (htarget : ParenFree all → target.BeforeOperator) :
    ArrowsPlaced all (.expr (.assign op target value)) :=
  of trivial htarget (by simp [ht, hv])

theorem template {quasis : List String} {substitutions : List Expr}
    (h : ∀ e ∈ substitutions, ArrowsPlaced all (.expr e)) :
    ArrowsPlaced all (.expr (.template quasis substitutions)) :=
  plain trivial trivial (by simpa using h)

theorem method {isAsync : Bool} {name : Option String} {params : List Pattern}
    (h : ∀ p ∈ params, ArrowsPlaced all (.pattern p)) :
    ArrowsPlaced all (.expr (.function .expression isAsync name params .block)) :=
  plain trivial trivial (by simpa using h)

theorem pattern_name (name : String) : ArrowsPlaced all (.pattern (.identifier name)) :=
  plain trivial trivial nofun

theorem rest {p : Pattern} (h : ArrowsPlaced all (.pattern p)) :
    ArrowsPlaced all (.pattern (.rest p)) :=
  plain trivial trivial (by simpa using h)

theorem keyed {key : Key} {kind : PropertyKind} {shorthand : Bool}
    (hk : ∀ e ∈ key.expressions, ArrowsPlaced all (.expr e)) (he : ArrowsPlaced all (.expr e)) :
    ArrowsPlaced all (.property (.keyed key e kind shorthand)) :=
  plain trivial trivial (by simpa using ⟨he, hk⟩)

/-- An arrow function whose place is known. -/
theorem arrow {isAsync : Bool} {name : String} {b : Body}
    (hplace : ∃ ts, ts <:+ all ∧ BeginsArrow isAsync name ts)
    (hb : ∀ value, b = .expression value → ArrowsPlaced all (.expr value)) :
    ArrowsPlaced all (.expr (.function .arrow isAsync none [.identifier name] b)) := by
  refine plain ?_ trivial ?_
  · obtain ⟨ts, hts, hbegins⟩ := hplace
    exact ⟨rfl, name, ts, rfl, hts, hbegins⟩
  · have hparam : ArrowsPlaced all (.pattern (.identifier name)) := pattern_name name
    cases b with
    | block => simpa using hparam
    | expression value =>
      simpa using ⟨hb value rfl, hparam⟩

end ArrowsPlaced

/-! ### The rules -/

/-- What is read where nothing takes parentheses for parameters has its arrow functions in
their places. -/
structure Rules.Places (all : List Token) (r : Rules) : Prop where
  sequence : Along all Anywhere r.sequence fun e _ => ArrowsPlaced all (.expr e)
  assignment : Along all Anywhere r.assignment fun e _ => ArrowsPlaced all (.expr e)
  conditional : Along all Anywhere r.conditional fun e _ => ArrowsPlaced all (.expr e)
  binary (minPrecedence : Nat) :
    Along all Anywhere (r.binary minPrecedence) fun e _ => ArrowsPlaced all (.expr e)
  exponent : Along all Anywhere r.exponent fun e _ => ArrowsPlaced all (.expr e)
  unary : Along all Anywhere r.unary fun e _ => ArrowsPlaced all (.expr e)
  operand : Along all Anywhere r.operand fun e _ => ArrowsPlaced all (.expr e)
  suffixes (allowCalls : Bool) (object : Expr) :
    Along all (fun ts => ArrowsPlaced all (.expr object) ∧ (ParenFree all → BodyStops object ts))
      (r.suffixes allowCalls object) fun e _ => ArrowsPlaced all (.expr e)
  construction : Along all (At (.keyword .new)) r.construction fun e _ => ArrowsPlaced all (.expr e)
  arguments : Along all Anywhere r.arguments fun es _ => ∀ e ∈ es, ArrowsPlaced all (.expr e)
  primary : Along all Anywhere r.primary fun e _ => ArrowsPlaced all (.expr e)
  asyncFunction? : Along all (At (.identifier "async")) r.asyncFunction? fun f ts =>
    (f = none → At (.identifier "async") ts) ∧ ∀ e, f = some e → ArrowsPlaced all (.expr e)
  parenthesized : Along all Anywhere (r.parenthesized false) fun e _ => ArrowsPlaced all (.expr e)
  arrowBody {isAsync : Bool} {name : String}
    (h : ∃ ts, ts <:+ all ∧ BeginsArrow isAsync name ts) :
    Along all Anywhere (r.arrowBody isAsync [.identifier name]) fun e _ =>
      ArrowsPlaced all (.expr e)
  functionExpression (isAsync : Bool) :
    Along all Anywhere (r.functionExpression isAsync) fun e _ => ArrowsPlaced all (.expr e)
  parameters : Along all Anywhere r.parameters fun ps _ => ∀ p ∈ ps, ArrowsPlaced all (.pattern p)
  bindingElement : Along all Anywhere r.bindingElement fun p _ => ArrowsPlaced all (.pattern p)
  bindingTarget : Along all Anywhere r.bindingTarget fun p _ => ArrowsPlaced all (.pattern p)
  arrayPattern : Along all Anywhere r.arrayPattern fun p _ => ArrowsPlaced all (.pattern p)
  objectPattern : Along all Anywhere r.objectPattern fun p _ => ArrowsPlaced all (.pattern p)
  arrayLiteral : Along all Anywhere r.arrayLiteral fun e _ => ArrowsPlaced all (.expr e)
  objectLiteral : Along all Anywhere r.objectLiteral fun e _ => ArrowsPlaced all (.expr e)
  objectMember : Along all Anywhere r.objectMember fun p _ => ArrowsPlaced all (.property p)
  propertyKey : Along all Anywhere r.propertyKey fun k _ =>
    ∀ e ∈ k.1.expressions, ArrowsPlaced all (.expr e)
  templateLiteral : Along all Anywhere r.templateLiteral fun e _ => ArrowsPlaced all (.expr e)

namespace Rules.Places

variable {all : List Token} {r : Rules}

/-! ### Operators -/

/-- An operand behind an operator is an arrow function only if that begins there. -/
theorem operand_behind {A B : List Token → Prop} {k : TokenKind} {p : Parse Expr}
    (hA : ∀ ts, A ts → Behind all B k ts)
    (hp : Along all A p fun e _ => ArrowsPlaced all (.expr e))
    (hw : Takes A p fun e => Written (expr e)) :
    Along all A p fun e _ => ArrowsPlaced all (.expr e) ∧
      (ParenFree all → e.BehindToken (kinds all) k) := by
  refine .each fun start _ hstart => ?_
  obtain ⟨t, rfl, hsuffix, -⟩ := hA start hstart
  have hp' : Along all (· = start) p fun e _ => ArrowsPlaced all (.expr e) :=
    hp.weaken fun _ h => h ▸ hstart
  refine (hp'.both fun hall => Along.arrow_head hall hw hstart).mono (fun _ h => h)
    fun e ts _ he => ⟨he.1, fun hall b hb => ?_⟩
  obtain ⟨isAsync, name, hhead⟩ := he.2 hall b hb
  have hbehind : t.kind :: arrowHead isAsync name <+: kinds (t :: start) :=
    (List.prefix_cons_inj t.kind).2 hhead
  exact ⟨isAsync, name, hbehind.isInfix.trans (hsuffix.map Token.kind).isInfix⟩

/-- In front of an operator an arrow function has a block. -/
theorem left_operand {α : Type} {A : List Token → Prop} {B : α → List Token → Prop}
    {k : TokenKind} {e : Expr} {p : Parse α} (hlow : 2 ≤ bindingRank k) (hhigh : bindingRank k ≤ 5)
    (hA : ∀ ts, A ts → ArrowsPlaced all (.expr e) ∧ (ParenFree all → BodyStops e ts))
    (hp : ArrowsPlaced all (.expr e) → (ParenFree all → e.BeforeOperator) →
      Along all (Behind all A k) p B) : Along all (Behind all A k) p B := by
  refine .each fun ts hsuffix hts => ?_
  have hbehind : Behind all A k ts := hts
  obtain ⟨t, rfl, -, ht⟩ := hts
  obtain ⟨he, hstops⟩ := hA _ ht
  refine (hp he fun hall b hb => ?_).weaken fun _ h => h ▸ hbehind
  exact (hstops hall).block hb hlow hhigh

theorem sequenceRule (h : r.Places all) :
    Along all Anywhere (Rule.sequence r) fun e _ => ArrowsPlaced all (.expr e) := by
  refine .andThen h.assignment fun first hfirst => .andThen (.collect
    (P := fun e => ArrowsPlaced all (.expr e)) ?_) fun rest hrest => ?_
  · exact .accept_bind (.anywhere (.andThen h.assignment fun e he => .pure fun _ _ _ => he))
      (.pure fun _ _ _ => trivial)
  · split
    · exact .pure fun _ _ _ => hfirst
    · exact .pure fun _ _ _ => .plain trivial trivial (by simpa using ⟨hfirst, hrest⟩)

theorem assignmentRule (h : r.Places all) (hs : ParenFree all → r.Stop all) :
    Along all Anywhere (Rule.assignment r) fun e _ => ArrowsPlaced all (.expr e) := by
  refine .nested (.bind (h.conditional.both fun hall => (hs hall).conditional) fun target =>
    .kind_bind fun k => ?_)
  split
  · next op =>
    refine .advance_then rfl (fun _ hts => hts.2) (left_operand (by simp [bindingRank])
      (by simp [bindingRank]) (fun _ hts => ⟨hts.1.1, fun hall => (hts.1.2 hall).1⟩)
      fun ht htarget => .anywhere ?_)
    exact .andThen h.assignment fun value hv => .pure fun _ _ _ => .assign op ht hv htarget
  · exact .pure fun _ _ hts => hts.1.1

theorem conditionalRule (h : r.Places all) (hs : ParenFree all → r.Stop all) :
    Along all Anywhere (Rule.conditional r) fun e _ => ArrowsPlaced all (.expr e) := by
  refine .bind ((h.binary 1).both fun hall => (hs hall).binary 1) fun test =>
    .accept_bind ?_ (.pure fun _ _ hts => hts.1.1)
  refine left_operand (by decide) (by decide) (fun _ hts => ⟨hts.1, fun hall => (hts.2 hall).1.1⟩)
    fun ht htest => .anywhere ?_
  refine .andThen h.assignment fun consequent hc => .expect_bind ?_
  refine .andThen h.assignment fun alternate ha => .pure fun _ _ _ => .of trivial htest ?_
  simp [ht, hc, ha]

theorem binaryRule (h : r.Places all) (hs : ParenFree all → r.Stop all) (hw : r.Writes)
    (minPrecedence : Nat) : Along all Anywhere (Rule.binary r minPrecedence) fun e _ =>
      ArrowsPlaced all (.expr e) := by
  -- of the expression so far it is known where its body has stopped
  have first : Along all Anywhere r.exponent fun e ts =>
      ArrowsPlaced all (.expr e) ∧ (ParenFree all → BodyStops e ts) :=
    (h.exponent.both fun hall => (hs hall).exponent).mono (fun _ h => h) fun _ _ _ hts =>
      ⟨hts.1, fun hall => (hts.2 hall).1⟩
  refine .bind first (.chain fun left => .kind_bind fun k => ?_)
  split
  · next precedence op hop =>
    have hrank : bindingRank k = 4 := bindingRank_of_infixOperator hop
    refine .ite (fun _ => .pure fun _ _ hts => hts.1.1) fun _ => ?_
    refine .advance_then (TokenKind.live_of_infix hop) (fun _ hts => hts.2) (left_operand (by omega)
      (by omega) (fun _ hts => hts.1) fun hl hleft => ?_)
    refine .andThen (operand_behind (fun _ h => h) (h.binary _).anywhere
      (hw.binary _).anywhere) fun right hr => ?_
    refine .pure fun ts _ _ => ⟨.apply hop hl hr.1 hleft hr.2, fun _ => .of_none ?_⟩
    exact Rules.Stop.apply_arrowBody op left right
  · exact .pure fun _ _ hts => hts.1.1

theorem exponentRule (h : r.Places all) (hs : ParenFree all → r.Stop all) (hw : r.Writes) :
    Along all Anywhere (Rule.exponent r) fun e _ => ArrowsPlaced all (.expr e) := by
  refine .bind (h.unary.both fun hall => (hs hall).unary) fun base => .accept_bind ?_
    (.pure fun _ _ hts => hts.1.1)
  refine left_operand (by decide) (by decide) (fun _ hts => ⟨hts.1, fun hall => (hts.2 hall).1⟩)
    fun hl hleft => ?_
  refine .andThen (operand_behind (fun _ h => h) (.nested h.exponent.anywhere)
    (.nested hw.exponent.anywhere)) fun power hr => ?_
  refine .pure fun _ _ _ => .of trivial (fun hall => ⟨hleft hall, hr.2 hall⟩) ?_
  simp [hl, hr.1]

/-- In front of a member, a template or a postfix operator the body of an arrow function has
ended. -/
theorem before_member {α : Type} {A : List Token → Prop} {B : α → List Token → Prop} {e : Expr}
    {p : Parse α} (hA : ∀ ts, A ts → ArrowsPlaced all (.expr e) ∧
      (ParenFree all → BodyStops e ts ∧ ¬OperandEnds ts))
    (hp : ArrowsPlaced all (.expr e) → (ParenFree all → e.BeforeMember) → Along all A p B) :
    Along all A p B := by
  refine .each fun ts hsuffix hts => ?_
  obtain ⟨he, hstops⟩ := hA ts hts
  refine (hp he fun hall b hb => ?_).weaken fun _ h => h ▸ hts
  obtain ⟨hbody, hends⟩ := hstops hall
  cases b with
  | block => exact .block
  | expression value => exact .update ((hbody value hb).operand.resolve_right hends)

theorem postfixUpdate (argument : Expr) :
    Along all (fun ts => ArrowsPlaced all (.expr argument) ∧
      (ParenFree all → BodyStops argument ts ∧ bindingRank (headKind ts) ≠ 7))
      (Rule.postfixUpdate argument) fun e _ => ArrowsPlaced all (.expr e) := by
  refine .ahead_bind fun t => ?_
  split
  · next op hop =>
    refine .ite (fun _ => .pure fun _ _ hts => hts.1.1) fun hline => ?_
    refine before_member (fun ts hts => ?_) fun ha hargument => .advance_bind (.pure fun _ _ _ =>
      .of trivial hargument (by simp [ha]))
    obtain ⟨⟨ha, hstops⟩, rfl⟩ := hts
    refine ⟨ha, fun hall => ⟨(hstops hall).1, fun hends => hline ?_⟩⟩
    rw [Rules.Stop.ahead_current] at hop ⊢
    exact hends.2 (bindingRank_of_updateOperator hop)
  · exact .pure fun _ _ hts => hts.1.1

theorem unaryRule (h : r.Places all) (hs : ParenFree all → r.Stop all) (hw : r.Writes) :
    Along all Anywhere (Rule.unary r) fun e _ => ArrowsPlaced all (.expr e) := by
  refine .kind_bind fun k => ?_
  split
  · next op hop =>
    obtain ⟨hlive, rfl⟩ := Writes.unary_token hop
    refine .advance_then hlive (fun _ hts => hts.2) ?_
    refine .andThen (operand_behind (fun _ h => h) (.nested h.unary.anywhere)
      (.nested hw.unary.anywhere)) fun argument ha => ?_
    refine .pure fun _ _ _ => .of trivial ha.2 ?_
    simp [ha.1]
  · next op _ hop =>
    obtain ⟨hlive, rfl⟩ := Writes.update_token hop
    refine .advance_then hlive (fun _ hts => hts.2) ?_
    refine .andThen (operand_behind (fun _ h => h) (.nested h.unary.anywhere)
      (.nested hw.unary.anywhere)) fun argument ha => ?_
    refine .pure fun _ _ _ => .of trivial ha.2 ?_
    simp [ha.1]
  · exact .bind (h.operand.both fun hall => (hs hall).operand).anywhere postfixUpdate

/-! ### Members and calls -/

/-- A construction is no arrow function. -/
theorem construction_stops (h : r.Places all) (hw : r.Writes) :
    Along all (At (.keyword .new)) r.construction fun e ts =>
      ArrowsPlaced all (.expr e) ∧ (ParenFree all → BodyStops e ts) :=
  (h.construction.both fun hall => .not_arrow hall hw.construction nofun).mono (fun _ h => h)
    fun _ _ _ hts => ⟨hts.1, fun hall => .of_none (hts.2 hall)⟩

theorem operandRule (h : r.Places all) (hs : ParenFree all → r.Stop all) (hw : r.Writes) :
    Along all Anywhere (Rule.operand r) fun e _ => ArrowsPlaced all (.expr e) := by
  refine .kind_bind fun k => .ite (fun hnew => ?_) fun _ => ?_
  · refine .bind ((h.construction_stops hw).weaken fun ts hts => ?_) (h.suffixes true)
    exact hts.2.trans hnew
  · exact .bind (h.primary.both fun hall => (hs hall).primary).anywhere (h.suffixes true)

theorem computedMember (h : r.Places all) :
    Along all Anywhere (Rule.computedMember r) fun key _ =>
      ∀ e ∈ key.expressions, ArrowsPlaced all (.expr e) := by
  refine .advance_bind (.anywhere (.andThen h.sequence fun e he => .expect_bind ?_))
  exact .pure fun _ _ _ => List.forall_mem_singleton.2 he

/-- Whether a link was read that has its arrow functions in their places. -/
def LinkPlaced (all : List Token) (next : Option Expr) : Prop :=
  ∃ e, next = some e ∧ e.arrowBody? = none ∧ ArrowsPlaced all (.expr e)

section Links

variable {A : List Token → Prop} {object : Expr} {optional : Bool}

theorem memberLink (ho : ArrowsPlaced all (.expr object))
    (hobject : ParenFree all → object.BeforeMember) :
    Along all A (do return some (.member object (.fixed (← Rule.memberName)) optional))
      fun next _ => LinkPlaced all next := by
  refine .bind (.passes Writes.memberName.anywhere) fun name => .pure fun _ _ _ => ?_
  exact ⟨_, rfl, rfl, .of trivial hobject (by simp [ho])⟩

theorem computedLink (h : r.Places all) (ho : ArrowsPlaced all (.expr object))
    (hobject : ParenFree all → object.BeforeMember) :
    Along all A (do return some (.member object (← Rule.computedMember r) optional))
      fun next _ => LinkPlaced all next := by
  refine .anywhere (.andThen h.computedMember fun key hkey => .pure fun _ _ _ => ?_)
  exact ⟨_, rfl, rfl, .of trivial hobject (by simpa using ⟨ho, hkey⟩)⟩

/-- There is no call without parentheses. -/
theorem callLink (h : r.Places all) (ho : ArrowsPlaced all (.expr object)) :
    Along all (At (.punct .leftParen)) (do return some (.call object (← r.arguments) optional))
      fun next _ => LinkPlaced all next := by
  refine .each fun ts hsuffix hts => .anywhere (.andThen h.arguments fun es hes => .pure
    fun _ _ _ => ⟨_, rfl, rfl, .of trivial (fun hall => ?_) ?_⟩)
  · exact absurd hts (hall.headKind_ne hsuffix)
  · simpa [or_imp, forall_and] using ⟨ho, hes⟩

theorem taggedLink (h : r.Places all) (ho : ArrowsPlaced all (.expr object))
    (hobject : ParenFree all → object.BeforeMember) :
    Along all A (do return some (.tagged object (← r.templateLiteral)))
      fun next _ => LinkPlaced all next := by
  refine .anywhere (.andThen h.templateLiteral fun quasi hquasi => .pure fun _ _ _ => ?_)
  exact ⟨_, rfl, rfl, .of trivial hobject (by simp [ho, hquasi])⟩

end Links

theorem suffix (h : r.Places all) (allowCalls : Bool) (object : Expr) :
    Along all (fun ts => ArrowsPlaced all (.expr object) ∧ (ParenFree all → BodyStops object ts))
      (Rule.suffix r allowCalls object) fun next ts =>
        match next with
        | none => ArrowsPlaced all (.expr object)
        | some e => ArrowsPlaced all (.expr e) ∧ (ParenFree all → BodyStops e ts) := by
  -- a token that a link begins with stands behind the object
  have behind : ∀ {k : TokenKind} {p : Parse (Option Expr)}, bindingRank k = 7 →
      (ArrowsPlaced all (.expr object) → (ParenFree all → object.BeforeMember) →
        Along all (At k) p fun next _ => LinkPlaced all next) →
      Along all (fun ts => (ArrowsPlaced all (.expr object) ∧
        (ParenFree all → BodyStops object ts)) ∧ At k ts) p fun next ts =>
        match next with
        | none => ArrowsPlaced all (.expr object)
        | some e => ArrowsPlaced all (.expr e) ∧ (ParenFree all → BodyStops e ts) := by
    intro k p hrank hp
    refine before_member (fun ts hts => ⟨hts.1.1, fun hall => ⟨hts.1.2 hall, fun hends => ?_⟩⟩)
      fun ho hobject => (hp ho hobject).mono (fun _ hts => hts.2) fun _ ts _ hnext => ?_
    · have hhead : headKind ts = k := hts.2
      exact hends.1 (by rw [hhead, hrank])
    · obtain ⟨e, rfl, hnone, he⟩ := hnext
      exact ⟨he, fun _ => .of_none hnone⟩
  refine .kind_bind fun k => ?_
  split
  · exact behind rfl fun ho hobject => .advance_bind (memberLink ho hobject)
  · refine .ite (fun _ => .pure fun _ _ hts => hts.1.1) fun _ => ?_
    refine behind rfl fun ho hobject => .advance_bind (.kind_bind fun k => ?_)
    split
    · exact (h.callLink ho).weaken fun _ hts => hts.2
    · exact h.computedLink ho hobject
    · exact memberLink ho hobject
  · exact behind rfl h.computedLink
  · exact .ite (fun _ => .pure fun _ _ hts => hts.1.1) fun _ => behind rfl fun ho _ => h.callLink ho
  · exact behind rfl h.taggedLink
  · exact behind rfl h.taggedLink
  · exact .pure fun _ _ hts => hts.1.1

theorem suffixesRule (h : r.Places all) (allowCalls : Bool) (object : Expr) :
    Along all (fun ts => ArrowsPlaced all (.expr object) ∧ (ParenFree all → BodyStops object ts))
      (Rule.suffixes r allowCalls object) fun e _ => ArrowsPlaced all (.expr e) := by
  refine .chain (A := fun object ts => ArrowsPlaced all (.expr object) ∧
    (ParenFree all → BodyStops object ts)) (fun object => ?_) object
  refine (h.suffix allowCalls object).mono (fun _ h => h) fun next ts _ hnext => ?_
  cases next <;> exact hnext

theorem constructionRule (h : r.Places all) (hs : ParenFree all → r.Stop all) (hw : r.Writes) :
    Along all (At (.keyword .new)) (Rule.construction r) fun e _ => ArrowsPlaced all (.expr e) := by
  have callee : ∀ {A B : List Token → Prop} {p : Parse Expr},
      (∀ ts, A ts → Behind all B (.keyword .new) ts) →
      (Along all A p fun e ts => ArrowsPlaced all (.expr e) ∧ (ParenFree all → BodyStops e ts)) →
      (Takes A p fun e => Written (expr e)) →
      Along all A (do
        let callee ← r.suffixes false (← p)
        if ← Parse.check .leftParen then return .new callee (← r.arguments)
        else return .new callee []) fun e _ => ArrowsPlaced all (.expr e) := by
    intro A B p hA hp hwritten
    -- the base with what follows it is read right behind `new`
    rw [← bind_assoc]
    refine .andThen (operand_behind hA (hp.bind (h.suffixes false)) (hwritten.andThen
      fun base ks hbase => hw.suffixes false hbase)) fun callee hc => ?_
    refine .check_bind (.anywhere (.andThen h.arguments fun es hes => .pure fun _ _ _ => ?_))
      (.pure fun _ _ _ => ?_)
    · exact .of trivial hc.2 (by simpa [or_imp, forall_and] using ⟨hc.1, hes⟩)
    · exact .of trivial hc.2 (by simp [hc.1])
  refine .nested (.advance_then rfl (fun _ h => h) (.accept_bind ?_ ?_))
  · refine .kind_bind fun k => .ite (fun _ => ?_) fun _ => .fail
    exact .advance_bind (.pure fun _ _ _ => .plain trivial trivial nofun)
  · refine .kind_bind fun k => .ite (fun hnew => ?_) fun _ => ?_
    · refine callee (fun _ hts => hts.1.1) ((h.construction_stops hw).weaken ?_)
        (hw.construction.weaken ?_)
      all_goals exact fun ts hts => hts.2.trans hnew
    · exact callee (fun _ hts => hts.1.1)
        (h.primary.both fun hall => (hs hall).primary).anywhere hw.primary.anywhere

theorem spreadable (h : r.Places all) :
    Along all Anywhere (Rule.spreadable r) fun e _ => ArrowsPlaced all (.expr e) := by
  refine .accept_bind (.anywhere (.andThen h.assignment fun e he => .pure fun _ _ _ => ?_))
    h.assignment.anywhere
  exact .plain trivial trivial (by simpa using he)

theorem argumentsRule (h : r.Places all) :
    Along all Anywhere (Rule.arguments r) fun es _ => ∀ e ∈ es, ArrowsPlaced all (.expr e) := by
  refine .advance_bind (.andThen (.collect ?_) fun es hes => .expect_bind (.pure fun _ _ _ => hes))
  refine .check_bind (.pure fun _ _ _ => trivial) (.anywhere ?_)
  exact .andThen h.spreadable fun e he => .accept_bind (.pure fun _ _ _ => he)
    (.pure fun _ _ _ => he)

/-! ### Primary expressions and functions -/

/-- A name in front of `=>` is where an arrow function begins. -/
theorem nameOrArrow (h : r.Places all) (name : String) :
    Along all (At (.identifier name)) (Rule.nameOrArrow r name) fun e _ =>
      ArrowsPlaced all (.expr e) := by
  refine .ahead_bind fun next => ?_
  refine .given (P := next.kind = .punct .arrow ∧ (!next.newlineBefore) = true →
    ∃ ts, ts <:+ all ∧ BeginsArrow false name ts) (fun ts hsuffix hts => ?_) fun hplace => ?_
  · rintro ⟨harrow, hline⟩
    obtain ⟨hhead, rfl⟩ := hts
    cases ts with
    | nil => cases hhead
    | cons t ts =>
      cases ts with
      | nil => cases hhead.symm.trans harrow
      | cons u ts => exact ⟨_, hsuffix, .plain hhead harrow (Bool.not_eq_eq_eq_not.1 hline)⟩
  · refine .advance_bind (.ite (fun hnext => ?_) fun _ => .pure fun _ _ _ => .identifier name)
    exact .advance_bind (h.arrowBody (hplace hnext))

theorem primaryRule (h : r.Places all) :
    Along all Anywhere (Rule.primary r) fun e _ => ArrowsPlaced all (.expr e) := by
  have literal : ∀ {A : List Token → Prop} value, Along all A (do
      Parse.advance
      return Expr.literal value) fun e _ => ArrowsPlaced all (.expr e) :=
    fun _ => .advance_bind (.pure fun _ _ _ => .plain trivial trivial nofun)
  refine .kind_bind fun k => ?_
  simp only []
  split
  · next name =>
    refine .ite (fun hasync => ?_) fun _ => .bind (.pure (B := fun f ts =>
      (f = none → At (.identifier name) ts) ∧ ∀ e, f = some e → ArrowsPlaced all (.expr e))
      fun _ _ hts => ⟨fun _ => hts.2, nofun⟩) fun f => ?_
    · subst hasync
      refine .bind (h.asyncFunction?.weaken fun ts hts => hts.2) fun f => ?_
      cases f with
      | none => exact (h.nameOrArrow "async").weaken fun ts hts => hts.1 rfl
      | some function => exact .pure fun _ _ hts => hts.2 function rfl
    · cases f with
      | none => exact (h.nameOrArrow name).weaken fun ts hts => hts.1 rfl
      | some function => exact .pure fun _ _ hts => hts.2 function rfl
  · exact literal _
  · exact literal _
  · exact literal _
  · exact literal _
  · exact literal _
  · exact literal _
  · exact literal _
  · exact .advance_bind (.pure fun _ _ _ => .plain trivial trivial nofun)
  · exact .advance_bind (.pure fun _ _ _ => .plain trivial trivial nofun)
  · exact h.templateLiteral.anywhere
  · exact h.templateLiteral.anywhere
  · exact h.parenthesized.anywhere
  · exact h.arrayLiteral.anywhere
  · exact h.objectLiteral.anywhere
  · exact (h.functionExpression false).anywhere
  · exact .fail

theorem asyncFunctionRule (h : r.Places all)
    (hgroup : ∀ ts, ts <:+ all → arrowFollows ts = false) :
    Along all (At (.identifier "async")) (Rule.asyncFunction? r) fun f ts =>
      (f = none → At (.identifier "async") ts) ∧ ∀ e, f = some e → ArrowsPlaced all (.expr e) := by
  have found : ∀ {A : List Token → Prop} {p : Parse Expr},
      Along all Anywhere p (fun e _ => ArrowsPlaced all (.expr e)) →
      Along all A (do return some (← p)) fun f ts => (f = none → At (.identifier "async") ts) ∧
        ∀ e, f = some e → ArrowsPlaced all (.expr e) := by
    refine fun hp => .anywhere (.andThen hp fun e he => .pure fun _ _ _ => ⟨nofun, ?_⟩)
    rintro _ ⟨⟩
    exact he
  refine .ahead_bind fun next => .ite (fun _ => .pure fun _ _ hts => ⟨fun _ => hts.1, nofun⟩)
    fun hline => ?_
  split
  · exact .advance_bind (found (h.functionExpression true))
  · next name hname =>
    refine .ahead_bind fun after => .ite (fun harrow => ?_) fun _ => .pure fun _ _ hts =>
      ⟨fun _ => hts.1.1, nofun⟩
    refine .given (P := ∃ ts, ts <:+ all ∧ BeginsArrow true name ts) (fun ts hsuffix hts => ?_)
      fun hplace => .advance_bind (.advance_bind (.advance_bind (found (h.arrowBody hplace))))
    obtain ⟨⟨hhead, rfl⟩, rfl⟩ := hts
    -- `=>` is two places ahead, so there are three tokens
    cases ts with
    | nil => cases hhead
    | cons word ts =>
      cases ts with
      | nil => cases hhead.symm.trans harrow
      | cons parameter ts =>
        cases ts with
        | nil => cases hname.symm.trans harrow
        | cons arrow rest =>
          exact ⟨_, hsuffix, .async hhead hname (Bool.eq_false_iff.2 hline) harrow⟩
  · refine .get_bind fun u => .ite (fun hfollows => .each fun ts hsuffix hts => ?_) fun _ =>
      .pure fun _ _ hts => ⟨fun _ => hts.1.1, nofun⟩
    have hdrop := hgroup _ ((List.drop_suffix 1 ts).trans hsuffix)
    rw [hts.2, hfollows] at hdrop
    cases hdrop
  · exact .pure fun _ _ hts => ⟨fun _ => hts.1, nofun⟩

theorem parenthesizedRule (h : r.Places all)
    (hgroup : ∀ ts, ts <:+ all → arrowFollows ts = false) :
    Along all Anywhere (Rule.parenthesized r false) fun e _ => ArrowsPlaced all (.expr e) := by
  refine .get_bind fun u => .ite (fun hfollows => .each fun ts hsuffix hts => ?_) fun _ => ?_
  · have hfree := hgroup ts hsuffix
    rw [hts.2, hfollows] at hfree
    cases hfree
  · refine .advance_bind (.andThen h.sequence fun e he => .expect_bind ?_)
    exact .pure fun _ _ _ => he

theorem arrowBodyRule (h : r.Places all) {isAsync : Bool} {name : String}
    (hplace : ∃ ts, ts <:+ all ∧ BeginsArrow isAsync name ts) :
    Along all Anywhere (Rule.arrowBody r isAsync [.identifier name]) fun e _ =>
      ArrowsPlaced all (.expr e) := by
  refine .check_bind (.skipBlock_bind (.pure fun _ _ _ => .arrow hplace nofun)) (.anywhere ?_)
  refine .andThen h.assignment fun e he => .pure fun _ _ _ => .arrow hplace ?_
  rintro _ ⟨⟩
  exact he

theorem functionExpressionRule (h : r.Places all) (isAsync : Bool) :
    Along all Anywhere (Rule.functionExpression r isAsync) fun e _ =>
      ArrowsPlaced all (.expr e) := by
  suffices rest : _ from .advance_bind (.accept_bind (.anywhere rest) (.anywhere rest))
  refine .bind (.passes Writes.functionName) fun name => .anywhere ?_
  refine .andThen h.parameters fun params hparams => .skipBlock_bind ?_
  exact .pure fun _ _ _ => .method hparams

/-! ### Patterns -/

theorem parametersRule (h : r.Places all) :
    Along all Anywhere (Rule.parameters r) fun ps _ => ∀ p ∈ ps, ArrowsPlaced all (.pattern p) := by
  refine .expect_bind (.andThen (.collect ?_) fun ps hps => .expect_bind (.pure fun _ _ _ => hps))
  refine .check_bind (.pure fun _ _ _ => trivial) (.accept_bind (.anywhere ?_) (.anywhere ?_))
  · exact .andThen h.bindingTarget fun p hp => .pure fun _ _ _ => .rest hp
  · exact .andThen h.bindingElement fun p hp => .accept_bind (.pure fun _ _ _ => hp)
      (.pure fun _ _ _ => hp)

theorem withDefault (h : r.Places all) {p : Pattern} (hp : ArrowsPlaced all (.pattern p)) :
    Along all Anywhere (Rule.withDefault r p) fun p _ => ArrowsPlaced all (.pattern p) := by
  refine .kind_bind fun k => .ite (fun _ => .advance_bind (.andThen h.assignment fun e he =>
    .pure fun _ _ _ => ?_)) fun _ => .pure fun _ _ _ => hp
  exact .plain trivial trivial (by simp [he,
    hp])

theorem bindingElementRule (h : r.Places all) :
    Along all Anywhere (Rule.bindingElement r) fun p _ => ArrowsPlaced all (.pattern p) :=
  .andThen h.bindingTarget fun _ hp => h.withDefault hp

theorem bindingTargetRule (h : r.Places all) :
    Along all Anywhere (Rule.bindingTarget r) fun p _ => ArrowsPlaced all (.pattern p) := by
  refine .kind_bind fun k => ?_
  split
  · exact .advance_bind (.pure fun _ _ _ => .pattern_name _)
  · exact .anywhere (.nested h.arrayPattern)
  · exact .anywhere (.nested h.objectPattern)
  · exact .fail

theorem arrayPatternRule (h : r.Places all) :
    Along all Anywhere (Rule.arrayPattern r) fun p _ => ArrowsPlaced all (.pattern p) := by
  refine .advance_bind (.andThen (.collect (P := fun (e : Option Pattern) =>
    ∀ p, e = some p → ArrowsPlaced all (.pattern p)) ?_) fun es hes => .pure fun _ _ _ => ?_)
  · have one : ∀ {p : Pattern}, ArrowsPlaced all (.pattern p) →
        ∀ q, some p = some q → ArrowsPlaced all (.pattern q) := by
      rintro p hp _ ⟨⟩
      exact hp
    refine .accept_bind (.pure fun _ _ _ => trivial) (.accept_bind (.pure fun _ _ _ => nofun)
      (.accept_bind (.anywhere ?_) (.anywhere ?_)))
    · exact .andThen h.bindingTarget fun p hp => .expect_bind (.pure fun _ _ _ => one (.rest hp))
    · exact .andThen h.bindingElement fun p hp => .check_bind (.pure fun _ _ _ => one hp)
        (.expect_bind (.pure fun _ _ _ => one hp))
  · refine .plain trivial trivial ?_
    simpa [List.reduceOption_mem_iff] using fun p hp => hes _ hp p rfl

theorem patternProperty (h : r.Places all) :
    Along all Anywhere (Rule.patternProperty r) fun p _ =>
      ArrowsPlaced all (.patternProperty p) := by
  have valued : ∀ {key : Key} {p : Pattern}, (∀ e ∈ key.expressions, ArrowsPlaced all (.expr e)) →
      ArrowsPlaced all (.pattern p) → ArrowsPlaced all (.patternProperty (.keyed key p)) := by
    intro key p hk hp
    exact .plain trivial trivial (by simpa [or_imp, forall_and] using ⟨hk, hp⟩)
  refine .accept_bind (.anywhere ?_) (.anywhere ?_)
  · refine .andThen h.bindingTarget fun p hp => .pure fun _ _ _ => .plain trivial trivial ?_
    simpa using hp
  · refine .andThen h.propertyKey fun key hk => ?_
    obtain ⟨key, shorthand⟩ := key
    refine .accept_bind (.anywhere ?_) (.anywhere ?_)
    · exact .andThen h.bindingElement fun p hp => .pure fun _ _ _ => valued hk hp
    · cases shorthand with
      | none => exact .fail
      | some name =>
        exact .andThen (h.withDefault (.pattern_name name)) fun p hp => .pure fun _ _ _ =>
          valued hk hp

theorem objectPatternRule (h : r.Places all) :
    Along all Anywhere (Rule.objectPattern r) fun p _ => ArrowsPlaced all (.pattern p) := by
  refine .advance_bind (.andThen (.collect (P := fun p => ArrowsPlaced all (.patternProperty p)) ?_)
    fun ps hps => .expect_bind (.pure fun _ _ _ => .plain trivial trivial (by simpa using hps)))
  refine .check_bind (.pure fun _ _ _ => trivial) (.anywhere ?_)
  exact .andThen h.patternProperty fun p hp => .accept_bind (.pure fun _ _ _ => hp)
    (.pure fun _ _ _ => hp)

/-! ### Literals -/

theorem arrayLiteralRule (h : r.Places all) :
    Along all Anywhere (Rule.arrayLiteral r) fun e _ => ArrowsPlaced all (.expr e) := by
  refine .advance_bind (.andThen (.collect (P := fun (o : Option Expr) =>
    ∀ e, o = some e → ArrowsPlaced all (.expr e)) ?_) fun es hes => .pure fun _ _ _ => ?_)
  · have one : ∀ {e : Expr}, ArrowsPlaced all (.expr e) →
        ∀ e', some e = some e' → ArrowsPlaced all (.expr e') := by
      rintro e he _ ⟨⟩
      exact he
    refine .accept_bind (.pure fun _ _ _ => trivial) (.accept_bind (.pure fun _ _ _ => nofun)
      (.anywhere ?_))
    exact .andThen h.spreadable fun e he => .check_bind (.pure fun _ _ _ => one he)
      (.expect_bind (.pure fun _ _ _ => one he))
  · refine .plain trivial trivial ?_
    simpa [List.reduceOption_mem_iff] using fun e he => hes _ he e rfl

theorem objectLiteralRule (h : r.Places all) :
    Along all Anywhere (Rule.objectLiteral r) fun e _ => ArrowsPlaced all (.expr e) := by
  refine .advance_bind (.andThen (.collect (P := fun p => ArrowsPlaced all (.property p)) ?_)
    fun ps hps => .expect_bind (.pure fun _ _ _ => .plain trivial trivial (by simpa using hps)))
  refine .check_bind (.pure fun _ _ _ => trivial) (.anywhere ?_)
  exact .andThen h.objectMember fun p hp => .accept_bind (.pure fun _ _ _ => hp)
    (.pure fun _ _ _ => hp)

theorem shorthandValue (h : r.Places all) (name : String) :
    Along all Anywhere (Rule.shorthandValue r name) fun e _ => ArrowsPlaced all (.expr e) := by
  refine .kind_bind fun k => .ite (fun _ => .advance_bind (.andThen h.assignment fun e he =>
    .pure fun _ _ _ => .assign .plain (.identifier name) he fun _ => nofun)) fun _ => ?_
  exact .pure fun _ _ _ => .identifier name

theorem memberValue (h : r.Places all) (kind : PropertyKind) (isAsync generator : Bool) {key : Key}
    (shorthand : Option String) (hk : ∀ e ∈ key.expressions, ArrowsPlaced all (.expr e)) :
    Along all Anywhere (Rule.memberValue r kind isAsync generator key shorthand) fun p _ =>
      ArrowsPlaced all (.property p) := by
  refine .check_bind (.anywhere ?_) (.anywhere ?_)
  · refine .andThen h.parameters fun params hparams => .skipBlock_bind (.pure fun _ _ _ => ?_)
    exact .keyed hk (.method hparams)
  · suffices value : _ from .ite nofun fun _ =>
      .ite (fun _ => .bind (.fail (B := fun _ _ => True)) fun _ => .anywhere value) fun _ => value
    refine .accept_bind (.anywhere ?_) (.anywhere ?_)
    · exact .andThen h.assignment fun e he => .pure fun _ _ _ => .keyed hk he
    · cases shorthand with
      | none => exact .fail
      | some name =>
        exact .andThen (h.shorthandValue name) fun e he => .pure fun _ _ _ => .keyed hk he

theorem objectMemberRule (h : r.Places all) :
    Along all Anywhere (Rule.objectMember r) fun p _ => ArrowsPlaced all (.property p) := by
  refine .accept_bind (.anywhere ?_) (.anywhere ?_)
  · refine .andThen h.assignment fun e he => .pure fun _ _ _ => .plain trivial trivial ?_
    simpa using he
  · refine .bind (.passes Writes.modifierRule) fun m => .anywhere ?_
    have behind : ∀ generator, Along all Anywhere (do
        let key ← r.propertyKey
        Rule.memberValue r m.1 m.2 generator key.1 key.2) fun p _ =>
        ArrowsPlaced all (.property p) :=
      fun generator => .andThen h.propertyKey fun key hk => h.memberValue _ _ generator _ hk
    exact .accept_bind (.anywhere (behind true)) (.anywhere (behind false))

theorem propertyKeyRule (h : r.Places all) :
    Along all Anywhere (Rule.propertyKey r) fun k _ =>
      ∀ e ∈ k.1.expressions, ArrowsPlaced all (.expr e) := by
  refine .kind_bind fun k => ?_
  split
  · exact .advance_bind (.pure fun _ _ _ => nofun)
  · refine .advance_bind (.andThen h.assignment fun e he => .expect_bind ?_)
    exact .pure fun _ _ _ => List.forall_mem_singleton.2 he
  · split
    · exact .advance_bind (.pure fun _ _ _ => nofun)
    · exact .fail

theorem templateLiteralRule (h : r.Places all) :
    Along all Anywhere (Rule.templateLiteral r) fun e _ => ArrowsPlaced all (.expr e) := by
  refine .kind_bind fun k => ?_
  split
  · exact .advance_bind (.pure fun _ _ _ => .template nofun)
  · refine .advance_bind (.andThen (.collect (P := fun part : Expr × String =>
      ArrowsPlaced all (.expr part.1)) ?_) fun parts hparts => .pure fun _ _ _ => ?_)
    · refine .andThen h.sequence fun e he => .kind_bind fun k => ?_
      split
      · exact .advance_bind (.pure fun _ _ _ => he)
      · exact .advance_bind (.pure fun _ _ _ => he)
      · exact .fail
    · exact .template (List.forall_mem_map.2 hparts)
  · exact .fail

/-- Arrow functions are in their places in what a rule reads, if they are in what the rules
it calls read. -/
theorem step (h : r.Places all) (hs : ParenFree all → r.Stop all) (hw : r.Writes)
    (hgroup : ∀ ts, ts <:+ all → arrowFollows ts = false) : r.step.Places all where
  sequence := h.sequenceRule
  assignment := h.assignmentRule hs
  conditional := h.conditionalRule hs
  binary := h.binaryRule hs hw
  exponent := h.exponentRule hs hw
  unary := h.unaryRule hs hw
  operand := h.operandRule hs hw
  suffixes := h.suffixesRule
  construction := h.constructionRule hs hw
  arguments := h.argumentsRule
  primary := h.primaryRule
  asyncFunction? := h.asyncFunctionRule hgroup
  parenthesized := h.parenthesizedRule hgroup
  arrowBody := h.arrowBodyRule
  functionExpression := h.functionExpressionRule
  parameters := h.parametersRule
  bindingElement := h.bindingElementRule
  bindingTarget := h.bindingTargetRule
  arrayPattern := h.arrayPatternRule
  objectPattern := h.objectPatternRule
  arrayLiteral := h.arrayLiteralRule
  objectLiteral := h.objectLiteralRule
  objectMember := h.objectMemberRule
  propertyKey := h.propertyKeyRule
  templateLiteral := h.templateLiteralRule

theorem exhausted : Rules.exhausted.Places all := by
  constructor
  all_goals
    intros
    exact .fail

end Rules.Places

/-- Where nothing takes parentheses for parameters, the grammar reads arrow functions in
their places. -/
theorem rules_place {all : List Token} (hgroup : ∀ ts, ts <:+ all → arrowFollows ts = false)
    (n : Nat) : (Grammar.rules n).Places all := by
  induction n with
  | zero => exact .exhausted
  | succ n ih => exact ih.step (fun hall => rules_stop hall n) (rules_write n) hgroup

theorem expression_places {s : Stream} {e : Expr}
    (hgroup : ∀ ts, ts <:+ s.rest → arrowFollows ts = false)
    (hread : (Parse.expression.run s).1 = .ok e) : ArrowsPlaced s.rest (.expr e) := by
  have hplaces : Along s.rest Anywhere Parse.expression fun e _ =>
      ArrowsPlaced s.rest (.expr e) := by
    refine .andThen (rules_place hgroup _).sequence fun e he => .kind_bind fun k => ?_
    split
    · exact .fail
    · exact .pure fun _ _ _ => he
  cases hrun : Parse.expression.run s with
  | mk result t =>
    rw [hrun] at hread
    subst hread
    exact (Triple.run_ok hplaces ⟨List.suffix_refl _, trivial⟩ hrun).2

/-! ### Line breaks -/

/-- Only a `=>` on the same line makes parameters of what is between parentheses. -/
theorem arrow_of_arrowFollows {ts : List Token} (h : arrowFollows ts = true) :
    ∃ t ∈ ts, t.kind = .punct .arrow ∧ t.newlineBefore = false := by
  have hnext : ∀ {ts : List Token}, arrowNext ts = true →
      ∃ t ∈ ts, t.kind = .punct .arrow ∧ t.newlineBefore = false := by
    intro ts h
    cases ts with
    | nil => cases h
    | cons t ts => exact ⟨t, List.mem_cons_self, by simpa [arrowNext] using h⟩
  have hclosing : ∀ {opened : Nat} {ts : List Token}, arrowAfterClosing opened ts = true →
      ∃ t ∈ ts, t.kind = .punct .arrow ∧ t.newlineBefore = false := by
    intro opened ts h
    -- for every number of open brackets
    induction ts generalizing opened with
    | nil => cases h
    | cons t ts ih =>
      have later : (∃ u ∈ ts, u.kind = .punct .arrow ∧ u.newlineBefore = false) →
          ∃ u ∈ t :: ts, u.kind = .punct .arrow ∧ u.newlineBefore = false := by
        rintro ⟨u, hu, harrow⟩
        exact ⟨u, List.mem_cons_of_mem t hu, harrow⟩
      rw [arrowAfterClosing] at h
      split at h
      · exact later (ih h)
      split at h
      · split at h
        · exact later (hnext h)
        · exact later (ih h)
      split at h
      · cases h
      · exact later (ih h)
  cases ts with
  | nil => cases h
  | cons t ts =>
    rw [arrowFollows, Bool.and_eq_true] at h
    exact hclosing h.2

/-- If there is a line break in front of each `=>`, every arrow function in what is read has
one parameter, which is not between parentheses, behind the word `async`. -/
theorem arrows_across_lines (source : String) (e : Expr)
    (hline : ∀ t ∈ tokenize source, t.kind = .punct .arrow → t.newlineBefore = true)
    (hread : parse source = .ok e) {isAsync : Bool} {name : Option String} {params : List Pattern}
    {b : Body} (hn : (Node.expr (.function .arrow isAsync name params b)).Within (.expr e)) :
    isAsync = true ∧ name = none ∧ ∃ x ts, params = [.identifier x] ∧
      ts <:+ tokenize source ∧ BeginsArrow true x ts := by
  have hgroup : ∀ ts, ts <:+ tokenize source → arrowFollows ts = false := by
    intro ts hts
    refine Bool.eq_false_iff.2 fun hfollows => ?_
    obtain ⟨t, ht, harrow, hsame⟩ := arrow_of_arrowFollows hfollows
    rw [hline t (hts.subset ht) harrow] at hsame
    cases hsame
  have hplaces := expression_places (s := { rest := tokenize source }) hgroup hread
  obtain ⟨hname, x, ts, hparams, hts, hbegins⟩ := (hplaces _ hn).1
  cases hbegins with
  | plain _ harrow hsame =>
    -- a name alone asks for `=>` on its line
    have harrowLine := hline _ (hts.subset (List.mem_cons_of_mem _ List.mem_cons_self)) harrow
    rw [hsame] at harrowLine
    cases harrowLine
  | async hword hparam hsame harrow =>
    exact ⟨rfl, hname, x, _, hparams, hts, .async hword hparam hsame harrow⟩

/-- The one form that is read across lines. -/
theorem arrows_across_lines_async :
    (∀ t ∈ tokenize "async x\n=> y", t.kind = .punct .arrow → t.newlineBefore = true) ∧
    parse "async x\n=> y" =
      .ok (.function .arrow true none [.identifier "x"] (.expression (.identifier "y"))) ∧
    ∃ x ts, [Pattern.identifier "x"] = [.identifier x] ∧ ts <:+ tokenize "async x\n=> y" ∧
      BeginsArrow true x ts := by
  have hline : ∀ t ∈ tokenize "async x\n=> y", t.kind = .punct .arrow → t.newlineBefore = true := by
    decide +kernel
  have hread : parse "async x\n=> y" =
      .ok (.function .arrow true none [.identifier "x"] (.expression (.identifier "y"))) := by
    with_unfolding_all rfl
  exact ⟨hline, hread, (arrows_across_lines _ _ hline hread .refl).2.2⟩

/-! ### Operands -/

/-- Where arrow functions stand as operands in a text without parentheses.  None is called;
one in front of an operator has a block, and one in front of a member, a template or a postfix
operator may have a body that ends in a postfix operator instead; one behind an operator or
`new` begins right behind its token. -/
theorem arrows_among_operands (s : Stream) (e : Expr)
    (hparen : ∀ t ∈ s.rest, t.kind ≠ .punct .leftParen)
    (hread : (Parse.expression.run s).1 = .ok e) (n : Node) (hn : n.Within (.expr e)) :
    n.ArrowOperands (kinds s.rest) := by
  have hfree : ParenFree s.rest := hparen
  exact (expression_places (fun ts hts => hfree.arrowFollows hts) hread n hn).2 hfree

/-- An arrow function that is added to. -/
theorem arrows_among_operands_block :
    (∀ t ∈ tokenize "x => \x7b\x7d + y", t.kind ≠ .punct .leftParen) ∧
    (Parse.expression.run { rest := tokenize "x => \x7b\x7d + y" }).1 =
      .ok (.binary .add (.function .arrow false none [.identifier "x"] .block) (.identifier "y")) ∧
    ∀ n : Node, n.Within (.expr (.binary .add
      (.function .arrow false none [.identifier "x"] .block) (.identifier "y"))) →
      n.ArrowOperands (kinds (tokenize "x => \x7b\x7d + y")) := by
  have hparen : ∀ t ∈ tokenize "x => \x7b\x7d + y", t.kind ≠ .punct .leftParen := by
    decide +kernel
  have hread : (Parse.expression.run { rest := tokenize "x => \x7b\x7d + y" }).1 =
      .ok (.binary .add (.function .arrow false none [.identifier "x"] .block)
        (.identifier "y")) := by
    with_unfolding_all rfl
  exact ⟨hparen, hread, arrows_among_operands { rest := tokenize _ } _ hparen hread⟩

end TemplateVars
