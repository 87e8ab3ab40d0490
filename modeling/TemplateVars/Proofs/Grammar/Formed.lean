/-
The trees that the grammar builds.

`Formed P` is an inductive account of them, with one case for each form that a
phrase can have: which trees are expressions, arguments, keys, properties,
parameters and targets of parameters.  `P` holds of every name that is read as a
variable.

* `Rules.Forms.step` — each rule builds formed phrases out of formed ones;
* `expression_formed` — so a tree read from tokens is formed, and each variable
  in it is the name of one of the tokens.

Design notes: an argument is an expression or `...` with one, and an element of
an array literal is the same; a `...` occurs nowhere else.  A parameter is a
target with or without a default, or `...` with a target, which has to be last.
-/
import TemplateVars.Proofs.Grammar.Triple

namespace TemplateVars

/-- What a rule of the grammar builds. -/
inductive Phrase where
  | expr (e : Expr)
  /-- An argument of a call, or an element of an array literal. -/
  | argument (e : Expr)
  | key (k : Key)
  | property (p : Property)
  /-- A name, or a pattern between brackets or braces. -/
  | target (p : Pattern)
  /-- A target with or without a default. -/
  | binding (p : Pattern)
  /-- A binding, or `...` and a target. -/
  | parameter (p : Pattern)
  | patternProperty (p : PatternProperty)

def Pattern.isRest : Pattern → Bool
  | .rest _ => true
  | _ => false

/-- In a list of parameters a rest stands only at the end. -/
def RestLast (params : List Pattern) : Prop := ∀ p ∈ params.dropLast, p.isRest = false

/-- In an array pattern a rest stands only at the end. -/
def ElementRestLast (elements : List (Option Pattern)) : Prop :=
  ∀ p, some p ∈ elements.dropLast → p.isRest = false

/-- The phrases of the grammar, all of whose variables satisfy `P`. -/
inductive Formed (P : String → Prop) : Phrase → Prop where
  | identifier {name : String} (h : P name) : Formed P (.expr (.identifier name))
  | literal (value : Literal) : Formed P (.expr (.literal value))
  | binary (op : BinaryOperator) {left right : Expr} (hl : Formed P (.expr left))
      (hr : Formed P (.expr right)) : Formed P (.expr (.binary op left right))
  | logical (op : LogicalOperator) {left right : Expr} (hl : Formed P (.expr left))
      (hr : Formed P (.expr right)) : Formed P (.expr (.logical op left right))
  | unary (op : UnaryOperator) {argument : Expr} (h : Formed P (.expr argument)) :
      Formed P (.expr (.unary op argument))
  | conditional {test consequent alternate : Expr} (ht : Formed P (.expr test))
      (hc : Formed P (.expr consequent)) (ha : Formed P (.expr alternate)) :
      Formed P (.expr (.conditional test consequent alternate))
  | member {base : Expr} {property : Key} (hb : Formed P (.expr base))
      (hp : Formed P (.key property)) (optional : Bool) :
      Formed P (.expr (.member base property optional))
  | call {callee : Expr} {arguments : List Expr} (hc : Formed P (.expr callee))
      (ha : ∀ a ∈ arguments, Formed P (.argument a)) (optional : Bool) :
      Formed P (.expr (.call callee arguments optional))
  | array {elements : List (Option Expr)}
      (h : ∀ e, some e ∈ elements → Formed P (.argument e)) : Formed P (.expr (.array elements))
  | object {properties : List Property} (h : ∀ p ∈ properties, Formed P (.property p)) :
      Formed P (.expr (.object properties))
  | arrow (isAsync : Bool) {params : List Pattern} {body : Expr}
      (hps : ∀ p ∈ params, Formed P (.parameter p)) (hlast : RestLast params)
      (hb : Formed P (.expr body)) :
      Formed P (.expr (.function .arrow isAsync none params (.expression body)))
  | arrowBlock (isAsync : Bool) {params : List Pattern}
      (hps : ∀ p ∈ params, Formed P (.parameter p)) (hlast : RestLast params) :
      Formed P (.expr (.function .arrow isAsync none params .block))
  | function (isAsync : Bool) (name : Option String) {params : List Pattern}
      (hps : ∀ p ∈ params, Formed P (.parameter p)) (hlast : RestLast params) :
      Formed P (.expr (.function .expression isAsync name params .block))
  | sequence {items : List Expr} (hlen : 2 ≤ items.length)
      (h : ∀ e ∈ items, Formed P (.expr e)) : Formed P (.expr (.sequence items))
  | assign (op : AssignOperator) {target value : Expr} (ht : Formed P (.expr target))
      (hv : Formed P (.expr value)) : Formed P (.expr (.assign op target value))
  | update (op : UpdateOperator) (place : UpdatePlace) {argument : Expr}
      (h : Formed P (.expr argument)) : Formed P (.expr (.update op place argument))
  | new {callee : Expr} {arguments : List Expr} (hc : Formed P (.expr callee))
      (ha : ∀ a ∈ arguments, Formed P (.argument a)) : Formed P (.expr (.new callee arguments))
  | template {quasis : List String} {substitutions : List Expr}
      (hlen : quasis.length = substitutions.length + 1)
      (h : ∀ e ∈ substitutions, Formed P (.expr e)) :
      Formed P (.expr (.template quasis substitutions))
  | tagged {tag : Expr} {quasis : List String} {substitutions : List Expr}
      (ht : Formed P (.expr tag)) (hlen : quasis.length = substitutions.length + 1)
      (h : ∀ e ∈ substitutions, Formed P (.expr e)) :
      Formed P (.expr (.tagged tag (.template quasis substitutions)))
  | this : Formed P (.expr .this)
  | super : Formed P (.expr .super)
  | newTarget : Formed P (.expr .newTarget)
  | argument {e : Expr} (h : Formed P (.expr e)) : Formed P (.argument e)
  | spread {e : Expr} (h : Formed P (.expr e)) : Formed P (.argument (.spread e))
  | fixed (name : String) : Formed P (.key (.fixed name))
  | computed {e : Expr} (h : Formed P (.expr e)) : Formed P (.key (.computed e))
  | value {key : Key} {e : Expr} (hk : Formed P (.key key)) (he : Formed P (.expr e)) :
      Formed P (.property (.keyed key e .init false))
  | shorthand {name : String} (h : P name) :
      Formed P (.property (.keyed (.fixed name) (.identifier name) .init true))
  | shorthandDefault {name : String} {e : Expr} (h : P name) (he : Formed P (.expr e)) :
      Formed P (.property
        (.keyed (.fixed name) (.assign .plain (.identifier name) e) .init true))
  | method {kind : PropertyKind} {key : Key} {isAsync : Bool} {params : List Pattern}
      (hkind : kind ≠ .init) (hasync : isAsync = true → kind = .method)
      (hk : Formed P (.key key)) (hps : ∀ p ∈ params, Formed P (.parameter p))
      (hlast : RestLast params) :
      Formed P (.property
        (.keyed key (.function .expression isAsync (Rule.methodName? key) params .block) kind
          false))
  | spreadProperty {e : Expr} (h : Formed P (.expr e)) : Formed P (.property (.spread e))
  | name (name : String) : Formed P (.target (.identifier name))
  | objectTarget {properties : List PatternProperty}
      (h : ∀ p ∈ properties, Formed P (.patternProperty p)) :
      Formed P (.target (.object properties))
  | arrayTarget {elements : List (Option Pattern)}
      (h : ∀ p, some p ∈ elements → Formed P (.parameter p))
      (hlast : ElementRestLast elements) : Formed P (.target (.array elements))
  | target {p : Pattern} (h : Formed P (.target p)) : Formed P (.binding p)
  | default {p : Pattern} {e : Expr} (hp : Formed P (.target p)) (he : Formed P (.expr e)) :
      Formed P (.binding (.withDefault p e))
  | binding {p : Pattern} (h : Formed P (.binding p)) : Formed P (.parameter p)
  | rest {p : Pattern} (h : Formed P (.target p)) : Formed P (.parameter (.rest p))
  | patternValue {key : Key} {p : Pattern} (hk : Formed P (.key key))
      (hp : Formed P (.binding p)) : Formed P (.patternProperty (.keyed key p))
  | patternRest {p : Pattern} (h : Formed P (.target p)) :
      Formed P (.patternProperty (.rest p))

theorem Formed.isRest_eq_false {P : String → Prop} {p : Pattern} (h : Formed P (.binding p)) :
    p.isRest = false := by
  cases h with
  | target h => cases h <;> rfl
  | default => rfl

theorem restLast_cons {p : Pattern} {ps : List Pattern} (hp : p.isRest = false)
    (hps : RestLast ps) : RestLast (p :: ps) := by
  intro q hq
  cases ps with
  | nil => exact absurd hq List.not_mem_nil
  | cons r rs =>
    rw [List.dropLast_cons_cons] at hq
    rcases List.mem_cons.1 hq with rfl | hq
    · exact hp
    · exact hps q hq

theorem elementRestLast_cons {e : Option Pattern} {es : List (Option Pattern)}
    (he : ∀ p, e = some p → p.isRest = false) (hes : ElementRestLast es) :
    ElementRestLast (e :: es) := by
  intro q hq
  cases es with
  | nil => exact absurd hq List.not_mem_nil
  | cons r rs =>
    rw [List.dropLast_cons_cons] at hq
    rcases List.mem_cons.1 hq with rfl | hq
    · exact he q rfl
    · exact hes q hq

/-! ### Readers whose values satisfy a predicate -/

/-- Whether each identifier among tokens is a name that satisfies `P`. -/
def Admits (P : String → Prop) (ts : List Token) : Prop :=
  ∀ t ∈ ts, ∀ name, t.kind = .identifier name → P name

/-- A reader that from admitted tokens returns only values that satisfy `Q`, and
leaves admitted tokens. -/
def Yields {α : Type} (P : String → Prop) (p : Parse α) (Q : α → Prop) : Prop :=
  Triple (fun _ _ => True) (Admits P) p fun a ts => Admits P ts ∧ Q a

section

variable {P : String → Prop} {ts : List Token}

theorem Admits.dropToken (h : Admits P ts) : Admits P (dropToken ts) := by
  unfold TemplateVars.dropToken
  split
  · exact h
  · exact fun t ht => h t (List.mem_of_mem_tail ht)

theorem Admits.headKind (h : Admits P ts) {name : String} (hk : headKind ts = .identifier name) :
    P name := by
  cases ts with
  | nil => exact nomatch hk
  | cons t rest => exact h t List.mem_cons_self name hk

end

namespace Yields

variable {α β : Type} {P : String → Prop} {p : Parse α} {Q Q' : α → Prop}

theorem mono (h : Yields P p Q) (hQ : ∀ a, Q a → Q' a) : Yields P p Q' :=
  Triple.mono h (fun _ h => h) fun a _ h => ⟨h.1, hQ a h.2⟩

theorem pure {a : α} (h : Q a) : Yields P (Pure.pure a) Q :=
  Triple.pure fun _ hts => ⟨hts, h⟩

theorem bind {f : α → Parse β} {R : β → Prop} (hp : Yields P p Q)
    (hf : ∀ a, Q a → Yields P (f a) R) : Yields P (p >>= f) R :=
  Triple.bind hp fun a s hs => hf a hs.2 s hs.1

theorem ite {c : Prop} [Decidable c] {q : Parse α} (hp : c → Yields P p Q)
    (hq : ¬c → Yields P q Q) : Yields P (if c then p else q) Q :=
  Triple.ite hp hq

theorem fail {cause : SyntaxError} : Yields P (Parse.fail cause : Parse α) Q :=
  Triple.fail fun _ _ => trivial

/-- The kind of the current token; if it is a name, it satisfies `P`. -/
theorem kind : Yields P Parse.kind fun k => ∀ name, k = .identifier name → P name :=
  Triple.kind fun _ hts => ⟨hts, fun _ => hts.headKind⟩

theorem ahead {n : Nat} : Yields P (Parse.ahead n) fun _ => True :=
  Triple.ahead fun _ hts => ⟨hts, trivial⟩

theorem get : Yields P MonadState.get fun _ => True :=
  Triple.get fun _ hts => ⟨hts, trivial⟩

theorem advance : Yields P Parse.advance fun _ => True :=
  Triple.advance fun _ hts => ⟨hts.dropToken, trivial⟩

theorem check {mark : Punctuator} : Yields P (Parse.check mark) fun _ => True :=
  Triple.check fun _ hts => ⟨hts, trivial⟩

theorem accept {mark : Punctuator} : Yields P (Parse.accept mark) fun _ => True :=
  Triple.accept (fun _ hts _ => ⟨hts.dropToken, trivial⟩) fun _ hts _ => ⟨hts, trivial⟩

theorem expect {wanted : Expected} : Yields P (Parse.expect wanted) fun _ => True :=
  Triple.expect (fun _ hts _ => ⟨hts.dropToken, trivial⟩) fun _ _ => trivial

theorem nested (h : Yields P p Q) : Yields P (Parse.nested p) Q :=
  Triple.nested h fun _ _ => trivial

theorem collect {round : Parse (Parse.Item α)} {C : List α → Prop}
    (h : Yields P round fun item =>
      match item with
      | .stop => C []
      | .last a => C [a]
      | .more a => ∀ as, C as → C (a :: as)) : Yields P (Parse.collect round) C := by
  refine Triple.collect (Triple.mono h (fun _ h => h) fun item ts h => ?_) fun _ _ => trivial
  cases item with
  | stop => exact h
  | last a => exact h
  | more a => exact ⟨h.1, fun as us has => ⟨has.1, h.2 as has.2⟩⟩

theorem chain {link : α → Parse (Option α)} {a : α}
    (h : ∀ a, Q a → Yields P (link a) fun next => ∀ b, next = some b → Q b) (ha : Q a) :
    Yields P (Parse.chain link a) Q := by
  refine Triple.mono (A := fun ts => Admits P ts ∧ Q a) ?_ (fun _ hts => ⟨hts, ha⟩)
    fun _ _ h => h
  -- the invariant of the rounds: what has been built so far satisfies `Q`
  refine Triple.chain (A := fun a ts => Admits P ts ∧ Q a) (fun a s hs => ?_)
    (fun _ _ _ => trivial) a
  have := h a hs.2 s hs.1
  cases hl : link a s with
  | error e t => trivial
  | ok next t =>
    rw [hl] at this
    cases next with
    | none => exact ⟨this.1, hs.2⟩
    | some b => exact ⟨this.1, this.2 b rfl⟩

end Yields

/-! ### The rules -/

/-- Whether a list holds the parameters of a function. -/
def FormedParams (P : String → Prop) (params : List Pattern) : Prop :=
  (∀ p ∈ params, Formed P (.parameter p)) ∧ RestLast params

/-- Whether each rule returns only phrases that are formed. -/
structure Rules.Forms (P : String → Prop) (r : Rules) : Prop where
  sequence : Yields P r.sequence fun e => Formed P (.expr e)
  assignment : Yields P r.assignment fun e => Formed P (.expr e)
  conditional : Yields P r.conditional fun e => Formed P (.expr e)
  binary (minPrecedence : Nat) : Yields P (r.binary minPrecedence) fun e => Formed P (.expr e)
  exponent : Yields P r.exponent fun e => Formed P (.expr e)
  unary : Yields P r.unary fun e => Formed P (.expr e)
  operand : Yields P r.operand fun e => Formed P (.expr e)
  suffixes (allowCalls : Bool) {object : Expr} (h : Formed P (.expr object)) :
    Yields P (r.suffixes allowCalls object) fun e => Formed P (.expr e)
  construction : Yields P r.construction fun e => Formed P (.expr e)
  arguments : Yields P r.arguments fun args => ∀ a ∈ args, Formed P (.argument a)
  primary : Yields P r.primary fun e => Formed P (.expr e)
  asyncFunction? : Yields P r.asyncFunction? fun f => ∀ e, f = some e → Formed P (.expr e)
  parenthesized (isAsync : Bool) :
    Yields P (r.parenthesized isAsync) fun e => Formed P (.expr e)
  arrowBody (isAsync : Bool) {params : List Pattern} (h : FormedParams P params) :
    Yields P (r.arrowBody isAsync params) fun e => Formed P (.expr e)
  functionExpression (isAsync : Bool) :
    Yields P (r.functionExpression isAsync) fun e => Formed P (.expr e)
  parameters : Yields P r.parameters (FormedParams P)
  bindingElement : Yields P r.bindingElement fun p => Formed P (.binding p)
  bindingTarget : Yields P r.bindingTarget fun p => Formed P (.target p)
  arrayPattern : Yields P r.arrayPattern fun p => Formed P (.target p)
  objectPattern : Yields P r.objectPattern fun p => Formed P (.target p)
  arrayLiteral : Yields P r.arrayLiteral fun e => Formed P (.expr e)
  objectLiteral : Yields P r.objectLiteral fun e => Formed P (.expr e)
  objectMember : Yields P r.objectMember fun p => Formed P (.property p)
  propertyKey : Yields P r.propertyKey fun k =>
    Formed P (.key k.1) ∧ ∀ name, k.2 = some name → P name ∧ k.1 = .fixed name
  templateLiteral : Yields P r.templateLiteral fun e =>
    ∃ quasis substitutions, e = .template quasis substitutions ∧ Formed P (.expr e)

namespace Rules.Forms

variable {P : String → Prop} {r : Rules}

theorem sequenceRule (h : r.Forms P) :
    Yields P (Rule.sequence r) fun e => Formed P (.expr e) := by
  refine .bind h.assignment fun first hfirst => ?_
  refine .bind (Q := fun rest => ∀ e ∈ rest, Formed P (.expr e)) (.collect ?_) fun rest hrest => ?_
  · refine .bind .accept fun b _ => .ite (fun _ => ?_) fun _ => .pure (by simp)
    refine .bind h.assignment fun e he => .pure ?_
    intro es hes a ha
    rcases List.mem_cons.1 ha with rfl | ha
    · exact he
    · exact hes a ha
  · -- without a comma the first expression stands alone, so a sequence has two
    split
    · exact .pure hfirst
    · next hne =>
      refine .pure (.sequence ?_ ?_)
      · cases rest with
        | nil => exact absurd rfl hne
        | cons e es => simp
      · intro e he
        rcases List.mem_cons.1 he with rfl | he
        · exact hfirst
        · exact hrest e he

theorem assignmentRule (h : r.Forms P) :
    Yields P (Rule.assignment r) fun e => Formed P (.expr e) := by
  refine .nested (.bind h.conditional fun target ht => .bind .kind fun k _ => ?_)
  split
  · refine .bind .advance fun _ _ => .bind h.assignment fun value hv => .pure ?_
    exact .assign _ ht hv
  · exact .pure ht

theorem conditionalRule (h : r.Forms P) :
    Yields P (Rule.conditional r) fun e => Formed P (.expr e) := by
  refine .bind (h.binary 1) fun test ht => .bind .accept fun b _ => ?_
  refine .ite (fun _ => ?_) fun _ => .pure ht
  refine .bind h.assignment fun c hc => .bind .expect fun _ _ => ?_
  exact .bind h.assignment fun a ha => .pure (.conditional ht hc ha)

theorem binaryRule (h : r.Forms P) (minPrecedence : Nat) :
    Yields P (Rule.binary r minPrecedence) fun e => Formed P (.expr e) := by
  refine .bind h.exponent fun first hfirst => .chain (fun left hl => ?_) hfirst
  refine .bind .kind fun k _ => ?_
  split
  · next op _ =>
    refine .ite (fun _ => .pure nofun) fun _ => .bind .advance fun _ _ => ?_
    refine .bind (h.binary _) fun right hr => .pure ?_
    rintro _ ⟨⟩
    cases op with
    | binary op => exact .binary op hl hr
    | logical op => exact .logical op hl hr
  · exact .pure nofun

theorem exponentRule (h : r.Forms P) :
    Yields P (Rule.exponent r) fun e => Formed P (.expr e) := by
  refine .bind h.unary fun base hb => .bind .accept fun b _ => .ite (fun _ => ?_) fun _ => .pure hb
  exact .bind (.nested h.exponent) fun e he => .pure (.binary .exponent hb he)

theorem unaryRule (h : r.Forms P) :
    Yields P (Rule.unary r) fun e => Formed P (.expr e) := by
  refine .bind .kind fun k _ => ?_
  split
  · refine .bind .advance fun _ _ => .bind (.nested h.unary) fun a ha => .pure ?_
    exact .unary _ ha
  · refine .bind .advance fun _ _ => .bind (.nested h.unary) fun a ha => .pure ?_
    exact .update _ .before ha
  · refine .bind h.operand fun a ha => .bind .ahead fun t _ => ?_
    split
    · refine .ite (fun _ => .pure ha) fun _ => .bind .advance fun _ _ => .pure ?_
      exact .update _ .after ha
    · exact .pure ha

theorem operandRule (h : r.Forms P) :
    Yields P (Rule.operand r) fun e => Formed P (.expr e) := by
  refine .bind .kind fun k _ => .ite (fun _ => ?_) fun _ => ?_
  · exact .bind h.construction fun base hb => h.suffixes true hb
  · exact .bind h.primary fun base hb => h.suffixes true hb

theorem memberName : Yields P Rule.memberName fun _ => True := by
  refine .bind .kind fun k _ => ?_
  split
  · exact .bind .advance fun _ _ => .pure trivial
  · exact .bind .advance fun _ _ => .pure trivial
  · exact .fail

theorem computedMember (h : r.Forms P) :
    Yields P (Rule.computedMember r) fun k => Formed P (.key k) :=
  .bind .advance fun _ _ => .bind h.sequence fun _ he => .bind .expect fun _ _ =>
    .pure (.computed he)

theorem suffix (h : r.Forms P) (allowCalls : Bool) {object : Expr}
    (ho : Formed P (.expr object)) :
    Yields P (Rule.suffix r allowCalls object) fun next =>
      ∀ e, next = some e → Formed P (.expr e) := by
  have member : ∀ optional, Yields P (do
      return some (.member object (.fixed (← Rule.memberName)) optional)) fun next =>
      ∀ e, next = some e → Formed P (.expr e) := by
    intro optional
    refine .bind memberName fun name _ => .pure ?_
    rintro _ ⟨⟩
    exact .member ho (.fixed name) optional
  have computed : ∀ optional, Yields P (do
      return some (.member object (← Rule.computedMember r) optional)) fun next =>
      ∀ e, next = some e → Formed P (.expr e) := by
    intro optional
    refine .bind h.computedMember fun k hk => .pure ?_
    rintro _ ⟨⟩
    exact .member ho hk optional
  have call : ∀ optional, Yields P (do
      return some (.call object (← r.arguments) optional)) fun next =>
      ∀ e, next = some e → Formed P (.expr e) := by
    intro optional
    refine .bind h.arguments fun args hargs => .pure ?_
    rintro _ ⟨⟩
    exact .call ho hargs optional
  have tagged : Yields P (do
      return some (.tagged object (← r.templateLiteral))) fun next =>
      ∀ e, next = some e → Formed P (.expr e) := by
    refine .bind h.templateLiteral fun q hq => .pure ?_
    rintro _ ⟨⟩
    obtain ⟨quasis, substitutions, rfl, hq⟩ := hq
    cases hq with
    | template hlen hsubstitutions => exact .tagged ho hlen hsubstitutions
  refine .bind .kind fun k _ => ?_
  split
  · exact .bind .advance fun _ _ => member false
  · refine .ite (fun _ => .pure nofun) fun _ => .bind .advance fun _ _ => .bind .kind fun k _ => ?_
    split
    · exact call true
    · exact computed true
    · exact member true
  · exact computed false
  · exact .ite (fun _ => .pure nofun) fun _ => call false
  · exact tagged
  · exact tagged
  · exact .pure nofun

theorem constructionRule (h : r.Forms P) :
    Yields P (Rule.construction r) fun e => Formed P (.expr e) := by
  -- `new` binds to the next argument list, so the callee takes no call suffix
  have callee : ∀ base, Formed P (.expr base) → Yields P (do
      let callee ← r.suffixes false base
      if ← Parse.check .leftParen then return .new callee (← r.arguments)
      else return .new callee []) fun e => Formed P (.expr e) := by
    intro base hb
    refine .bind (h.suffixes false hb) fun callee hc => .bind .check fun b _ => ?_
    refine .ite (fun _ => ?_) fun _ => .pure (.new hc nofun)
    exact .bind h.arguments fun args hargs => .pure (.new hc hargs)
  refine .nested (.bind .advance fun _ _ => .bind .accept fun b _ => .ite (fun _ => ?_) fun _ => ?_)
  · refine .bind .kind fun k _ => .ite (fun _ => ?_) fun _ => .fail
    exact .bind .advance fun _ _ => .pure .newTarget
  · refine .bind .kind fun k _ => .ite (fun _ => ?_) fun _ => ?_
    · exact .bind h.construction callee
    · exact .bind h.primary callee

theorem spreadable (h : r.Forms P) :
    Yields P (Rule.spreadable r) fun e => Formed P (.argument e) := by
  refine .bind .accept fun b _ => .ite (fun _ => ?_) fun _ => ?_
  · exact .bind h.assignment fun e he => .pure (.spread he)
  · exact h.assignment.mono fun e he => .argument he

theorem argumentsRule (h : r.Forms P) :
    Yields P (Rule.arguments r) fun args => ∀ a ∈ args, Formed P (.argument a) := by
  refine .bind .advance fun _ _ => .bind (.collect ?_) fun args hargs =>
    .bind .expect fun _ _ => .pure hargs
  refine .bind .check fun b _ => .ite (fun _ => .pure nofun) fun _ => ?_
  refine .bind h.spreadable fun a ha => .bind .accept fun b _ => .ite (fun _ => ?_) fun _ => ?_
  · exact .pure fun as has => List.forall_mem_cons.2 ⟨ha, has⟩
  · exact .pure (List.forall_mem_singleton.2 ha)

theorem arrowBody_name (h : r.Forms P) (isAsync : Bool) (name : String) :
    Yields P (r.arrowBody isAsync [.identifier name]) fun e => Formed P (.expr e) :=
  h.arrowBody isAsync
    ⟨List.forall_mem_singleton.2 (.binding (.target (.name name))), nofun⟩

theorem nameOrArrow (h : r.Forms P) {name : String} (hname : P name) :
    Yields P (Rule.nameOrArrow r name) fun e => Formed P (.expr e) := by
  refine .bind .ahead fun next _ => .bind .advance fun _ _ => .ite (fun _ => ?_) fun _ => ?_
  · exact .bind .advance fun _ _ => h.arrowBody_name false name
  · exact .pure (.identifier hname)

theorem primaryRule (h : r.Forms P) :
    Yields P (Rule.primary r) fun e => Formed P (.expr e) := by
  have literal : ∀ value, Yields P (do
      Parse.advance
      return .literal value) fun e => Formed P (.expr e) :=
    fun value => .bind .advance fun _ _ => .pure (.literal value)
  have template : Yields P r.templateLiteral fun e => Formed P (.expr e) := by
    refine h.templateLiteral.mono ?_
    rintro _ ⟨_, _, rfl, he⟩
    exact he
  refine .bind .kind fun k hk => ?_
  simp only []
  split
  · next name =>
    -- `async` may begin a function; if it does not, it is a name like any other
    suffices rest : _ from .ite (fun _ => .bind h.asyncFunction? rest) fun _ =>
      .bind (.pure fun e he => by cases he) rest
    intro f hf
    cases f with
    | some e => exact .pure (hf e rfl)
    | none => exact h.nameOrArrow (hk name rfl)
  · exact literal _
  · exact literal _
  · exact literal _
  · exact literal _
  · exact literal _
  · exact literal _
  · exact literal _
  · exact .bind .advance fun _ _ => .pure .this
  · exact .bind .advance fun _ _ => .pure .super
  · exact template
  · exact template
  · exact h.parenthesized false
  · exact h.arrayLiteral
  · exact h.objectLiteral
  · exact h.functionExpression false
  · exact .fail

theorem skipBlock : Yields P Rule.skipBlock fun _ => True := by
  -- for every number of open braces: the tokens of a block may open more of them
  have hclosed : ∀ opened ts, Admits P ts → Admits P (closeBlock opened ts).2 := by
    intro opened ts hts
    induction ts generalizing opened with
    | nil => exact hts
    | cons t ts ih =>
      have hrest : Admits P ts := fun u hu => hts u (List.mem_cons_of_mem t hu)
      rw [closeBlock]
      split
      · exact ih _ hrest
      · split
        · split
          · exact hrest
          · exact ih _ hrest
        · split
          · exact hts
          · exact ih _ hrest
  refine Triple.skipBlock (fun ts rest hts _ hrest => ⟨?_, trivial⟩) (fun _ _ => trivial)
    fun _ _ _ _ _ => trivial
  have := hclosed 0 _ hts.dropToken
  rw [hrest] at this
  exact this

theorem asyncFunctionRule (h : r.Forms P) :
    Yields P (Rule.asyncFunction? r) fun f => ∀ e, f = some e → Formed P (.expr e) := by
  have found : ∀ {p : Parse Expr}, Yields P p (fun e => Formed P (.expr e)) → Yields P (do
      return some (← p)) fun f => ∀ e, f = some e → Formed P (.expr e) := by
    intro p hp
    refine .bind hp fun e he => .pure ?_
    rintro _ ⟨⟩
    exact he
  refine .bind .ahead fun next _ => .ite (fun _ => .pure nofun) fun _ => ?_
  split
  · exact .bind .advance fun _ _ => found (h.functionExpression true)
  · refine .bind .ahead fun _ _ => .ite (fun _ => ?_) fun _ => .pure nofun
    refine .bind .advance fun _ _ => .bind .advance fun _ _ => .bind .advance fun _ _ => ?_
    exact found (h.arrowBody_name true _)
  · refine .bind .get fun _ _ => .ite (fun _ => ?_) fun _ => .pure nofun
    exact .bind .advance fun _ _ => found (h.parenthesized true)
  · exact .pure nofun

theorem parenthesizedRule (h : r.Forms P) (isAsync : Bool) :
    Yields P (Rule.parenthesized r isAsync) fun e => Formed P (.expr e) := by
  refine .bind .get fun _ _ => .ite (fun _ => ?_) fun _ => ?_
  · exact .bind h.parameters fun params hps => .bind .expect fun _ _ => h.arrowBody isAsync hps
  · exact .bind .advance fun _ _ => .bind h.sequence fun e he => .bind .expect fun _ _ => .pure he

theorem arrowBodyRule (h : r.Forms P) (isAsync : Bool) {params : List Pattern}
    (hps : FormedParams P params) :
    Yields P (Rule.arrowBody r isAsync params) fun e => Formed P (.expr e) := by
  refine .bind .check fun b _ => .ite (fun _ => ?_) fun _ => ?_
  · exact .bind skipBlock fun _ _ => .pure (.arrowBlock isAsync hps.1 hps.2)
  · exact .bind h.assignment fun e he => .pure (.arrow isAsync hps.1 hps.2 he)

theorem functionName : Yields P Rule.functionName? fun _ => True := by
  refine .bind .kind fun k _ => ?_
  split
  · exact .bind .advance fun _ _ => .pure trivial
  · exact .pure trivial

theorem functionExpressionRule (h : r.Forms P) (isAsync : Bool) :
    Yields P (Rule.functionExpression r isAsync) fun e => Formed P (.expr e) := by
  refine .bind .advance fun _ _ => .bind .accept fun _ _ => .bind functionName fun name _ => ?_
  refine .bind h.parameters fun params hps => .bind skipBlock fun _ _ => .pure ?_
  exact .function isAsync name hps.1 hps.2

theorem parametersRule (h : r.Forms P) : Yields P (Rule.parameters r) (FormedParams P) := by
  refine .bind .expect fun _ _ => .bind (.collect ?_) fun params hps =>
    .bind .expect fun _ _ => .pure hps
  refine .bind .check fun _ _ => .ite (fun _ => .pure ⟨nofun, nofun⟩) fun _ => ?_
  refine .bind .accept fun _ _ => .ite (fun _ => ?_) fun _ => ?_
  · refine .bind h.bindingTarget fun t ht => .pure ?_
    exact ⟨List.forall_mem_singleton.2 (.rest ht), nofun⟩
  · refine .bind h.bindingElement fun p hp => .bind .accept fun _ _ =>
      .ite (fun _ => ?_) fun _ => ?_
    · refine .pure fun ps hps => ⟨List.forall_mem_cons.2 ⟨.binding hp, hps.1⟩, ?_⟩
      exact restLast_cons hp.isRest_eq_false hps.2
    · exact .pure ⟨List.forall_mem_singleton.2 (.binding hp), nofun⟩

theorem withDefault (h : r.Forms P) {p : Pattern} (hp : Formed P (.target p)) :
    Yields P (Rule.withDefault r p) fun p => Formed P (.binding p) := by
  refine .bind .kind fun _ _ => .ite (fun _ => ?_) fun _ => .pure (.target hp)
  exact .bind .advance fun _ _ => .bind h.assignment fun e he => .pure (.default hp he)

theorem bindingElementRule (h : r.Forms P) :
    Yields P (Rule.bindingElement r) fun p => Formed P (.binding p) :=
  .bind h.bindingTarget fun _ hp => h.withDefault hp

theorem bindingTargetRule (h : r.Forms P) :
    Yields P (Rule.bindingTarget r) fun p => Formed P (.target p) := by
  refine .bind .kind fun k _ => ?_
  split
  · exact .bind .advance fun _ _ => .pure (.name _)
  · exact .nested h.arrayPattern
  · exact .nested h.objectPattern
  · exact .fail

theorem arrayPatternRule (h : r.Forms P) :
    Yields P (Rule.arrayPattern r) fun p => Formed P (.target p) := by
  refine .bind .advance fun _ _ => .bind (Q := fun es =>
    (∀ p, some p ∈ es → Formed P (.parameter p)) ∧ ElementRestLast es) (.collect ?_)
    fun es hes => .pure (.arrayTarget hes.1 hes.2)
  -- an element or a hole before others; only the last round reads a rest
  have cons : ∀ {e : Option Pattern} {es : List (Option Pattern)},
      (∀ p, e = some p → Formed P (.binding p)) →
      (∀ p, some p ∈ es → Formed P (.parameter p)) ∧ ElementRestLast es →
      (∀ p, some p ∈ e :: es → Formed P (.parameter p)) ∧ ElementRestLast (e :: es) := by
    intro e es he hes
    refine ⟨fun p hp => ?_, elementRestLast_cons (fun p hp => (he p hp).isRest_eq_false) hes.2⟩
    rcases List.mem_cons.1 hp with hp | hp
    · exact .binding (he p hp.symm)
    · exact hes.1 p hp
  refine .bind .accept fun _ _ => .ite (fun _ => .pure ⟨nofun, nofun⟩) fun _ => ?_
  refine .bind .accept fun _ _ => .ite (fun _ => .pure fun es hes => cons nofun hes) fun _ => ?_
  refine .bind .accept fun _ _ => .ite (fun _ => ?_) fun _ => ?_
  · refine .bind h.bindingTarget fun t ht => .bind .expect fun _ _ => .pure ⟨fun p hp => ?_, nofun⟩
    obtain rfl : p = t.rest := Option.some.inj (List.mem_singleton.1 hp)
    exact .rest ht
  · refine .bind h.bindingElement fun p hp => .bind .check fun _ _ => ?_
    refine .ite (fun _ => .bind .expect fun _ _ => ?_) fun _ => ?_
    all_goals exact .pure fun es hes => cons (fun q hq => Option.some.inj hq ▸ hp) hes

theorem patternProperty (h : r.Forms P) :
    Yields P (Rule.patternProperty r) fun p => Formed P (.patternProperty p) := by
  refine .bind .accept fun _ _ => .ite (fun _ => ?_) fun _ => ?_
  · exact .bind h.bindingTarget fun t ht => .pure (.patternRest ht)
  · refine .bind h.propertyKey fun k hk => .bind .accept fun _ _ => .ite (fun _ => ?_) fun _ => ?_
    · exact .bind h.bindingElement fun p hp => .pure (.patternValue hk.1 hp)
    · split
      · exact .bind (h.withDefault (.name _)) fun p hp => .pure (.patternValue hk.1 hp)
      · exact .fail

theorem objectPatternRule (h : r.Forms P) :
    Yields P (Rule.objectPattern r) fun p => Formed P (.target p) := by
  refine .bind .advance fun _ _ => .bind (.collect ?_) fun ps hps =>
    .bind .expect fun _ _ => .pure (.objectTarget hps)
  refine .bind .check fun _ _ => .ite (fun _ => .pure nofun) fun _ => ?_
  refine .bind h.patternProperty fun p hp => .bind .accept fun _ _ => .ite (fun _ => ?_) fun _ => ?_
  · exact .pure fun ps hps => List.forall_mem_cons.2 ⟨hp, hps⟩
  · exact .pure (List.forall_mem_singleton.2 hp)

theorem arrayLiteralRule (h : r.Forms P) :
    Yields P (Rule.arrayLiteral r) fun e => Formed P (.expr e) := by
  refine .bind .advance fun _ _ => .bind (Q := fun es => ∀ e, some e ∈ es → Formed P (.argument e))
    (.collect ?_) fun es hes => .pure (.array hes)
  have cons : ∀ {e : Option Expr} {es : List (Option Expr)},
      (∀ a, e = some a → Formed P (.argument a)) →
      (∀ a, some a ∈ es → Formed P (.argument a)) →
      ∀ a, some a ∈ e :: es → Formed P (.argument a) := by
    intro e es he hes a ha
    rcases List.mem_cons.1 ha with ha | ha
    · exact he a ha.symm
    · exact hes a ha
  refine .bind .accept fun _ _ => .ite (fun _ => .pure nofun) fun _ => ?_
  refine .bind .accept fun _ _ => .ite (fun _ => .pure fun es hes => cons nofun hes) fun _ => ?_
  refine .bind h.spreadable fun a ha => .bind .check fun _ _ => ?_
  refine .ite (fun _ => .bind .expect fun _ _ => ?_) fun _ => ?_
  all_goals exact .pure fun es hes => cons (fun b hb => Option.some.inj hb ▸ ha) hes

theorem objectLiteralRule (h : r.Forms P) :
    Yields P (Rule.objectLiteral r) fun e => Formed P (.expr e) := by
  refine .bind .advance fun _ _ => .bind (.collect ?_) fun ps hps =>
    .bind .expect fun _ _ => .pure (.object hps)
  refine .bind .check fun _ _ => .ite (fun _ => .pure nofun) fun _ => ?_
  refine .bind h.objectMember fun p hp => .bind .accept fun _ _ => .ite (fun _ => ?_) fun _ => ?_
  · exact .pure fun ps hps => List.forall_mem_cons.2 ⟨hp, hps⟩
  · exact .pure (List.forall_mem_singleton.2 hp)

/-- Only the modifier `async` makes a function asynchronous. -/
theorem modifier :
    Yields P Rule.modifier fun m => m.2 = true → m.1 = .method := by
  refine .bind .kind fun _ _ => ?_
  split
  · split
    · refine .bind .ahead fun _ _ => .ite (fun _ => ?_) fun _ => .pure nofun
      exact .bind .advance fun _ _ => .pure of_decide_eq_true
    · exact .pure nofun
  · exact .pure nofun

theorem shorthandValue (h : r.Forms P) {name : String} (hname : P name) :
    Yields P (Rule.shorthandValue r name) fun e =>
      Formed P (.property (.keyed (.fixed name) e .init true)) := by
  refine .bind .kind fun _ _ => .ite (fun _ => ?_) fun _ => .pure (.shorthand hname)
  exact .bind .advance fun _ _ => .bind h.assignment fun e he => .pure (.shorthandDefault hname he)

theorem memberValue (h : r.Forms P) {kind : PropertyKind} {isAsync generator : Bool} {key : Key}
    {shorthand : Option String} (hasync : isAsync = true → kind = .method)
    (hk : Formed P (.key key)) (hs : ∀ name, shorthand = some name → P name ∧ key = .fixed name) :
    Yields P (Rule.memberValue r kind isAsync generator key shorthand) fun p =>
      Formed P (.property p) := by
  refine .bind .check fun _ _ => .ite (fun _ => ?_) fun _ => ?_
  · refine .bind h.parameters fun params hps => .bind skipBlock fun _ _ => .pure ?_
    -- a member with parameters is a method, unless it is a getter or a setter
    refine .method ?_ (fun ha => ?_) hk hps.1 hps.2
    · split
      · rintro ⟨⟩
      · next hne => exact hne
    · rw [hasync ha]
      rfl
  · suffices rest : _ from .ite (fun _ => .bind .fail fun _ (_ : True) => rest) fun _ => rest
    refine .bind .accept fun _ _ => .ite (fun _ => ?_) fun _ => ?_
    · exact .bind h.assignment fun e he => .pure (.value hk he)
    · cases shorthand with
      | none => exact .fail
      | some name =>
        obtain ⟨hname, rfl⟩ := hs name rfl
        exact .bind (h.shorthandValue hname) fun e he => .pure he

theorem objectMemberRule (h : r.Forms P) :
    Yields P (Rule.objectMember r) fun p => Formed P (.property p) := by
  refine .bind .accept fun _ _ => .ite (fun _ => ?_) fun _ => ?_
  · exact .bind h.assignment fun e he => .pure (.spreadProperty he)
  · refine .bind modifier fun m hm => .bind .accept fun _ _ => ?_
    exact .bind h.propertyKey fun k hk => h.memberValue hm hk.1 hk.2

theorem propertyKeyRule (h : r.Forms P) :
    Yields P (Rule.propertyKey r) fun k =>
      Formed P (.key k.1) ∧ ∀ name, k.2 = some name → P name ∧ k.1 = .fixed name := by
  refine .bind .kind fun k hk => ?_
  split
  · next name =>
    refine .bind .advance fun _ _ => .pure ⟨.fixed name, ?_⟩
    rintro _ ⟨⟩
    exact ⟨hk name rfl, rfl⟩
  · refine .bind .advance fun _ _ => .bind h.assignment fun e he => .bind .expect fun _ _ => ?_
    exact .pure ⟨.computed he, nofun⟩
  · split
    · exact .bind .advance fun _ _ => .pure ⟨.fixed _, nofun⟩
    · exact .fail

theorem substitution (h : r.Forms P) :
    Yields P (Rule.substitution r) fun item =>
      match item with
      | .stop => False
      | .last part => Formed P (.expr part.1)
      | .more part => Formed P (.expr part.1) := by
  refine .bind h.sequence fun e he => .bind .kind fun _ _ => ?_
  split
  · exact .bind .advance fun _ _ => .pure he
  · exact .bind .advance fun _ _ => .pure he
  · exact .fail

theorem templateLiteralRule (h : r.Forms P) :
    Yields P (Rule.templateLiteral r) fun e =>
      ∃ quasis substitutions, e = .template quasis substitutions ∧ Formed P (.expr e) := by
  refine .bind .kind fun _ _ => ?_
  split
  · exact .bind .advance fun _ _ => .pure ⟨_, _, rfl, .template rfl nofun⟩
  · refine .bind .advance fun _ _ => .bind (Q := fun parts => ∀ p ∈ parts, Formed P (.expr p.1))
      (.collect (h.substitution.mono fun item hitem => ?_)) fun parts hparts => .pure ?_
    · cases item with
      | stop => exact hitem.elim
      | last part => exact List.forall_mem_singleton.2 hitem
      | more part => exact fun parts hparts => List.forall_mem_cons.2 ⟨hitem, hparts⟩
    · -- each part is an expression and the text after it
      refine ⟨_, _, rfl, .template (by simp) fun e he => ?_⟩
      obtain ⟨p, hp, rfl⟩ := List.mem_map.1 he
      exact hparts p hp
  · exact .fail

/-- The rules that call rules which return formed phrases return formed phrases
themselves. -/
theorem step (h : r.Forms P) : r.step.Forms P where
  sequence := h.sequenceRule
  assignment := h.assignmentRule
  conditional := h.conditionalRule
  binary := h.binaryRule
  exponent := h.exponentRule
  unary := h.unaryRule
  operand := h.operandRule
  suffixes allowCalls _ ho := .chain (fun _ => h.suffix allowCalls) ho
  construction := h.constructionRule
  arguments := h.argumentsRule
  primary := h.primaryRule
  asyncFunction? := h.asyncFunctionRule
  parenthesized := h.parenthesizedRule
  arrowBody isAsync _ := h.arrowBodyRule isAsync
  functionExpression := h.functionExpressionRule
  parameters := h.parametersRule
  bindingElement := h.bindingElementRule
  bindingTarget := h.bindingTargetRule
  arrayPattern := h.arrayPatternRule
  objectPattern := h.objectPatternRule
  arrayLiteral := h.arrayLiteralRule
  objectLiteral := h.objectLiteralRule
  objectMember := h.objectMemberRule
  propertyKey := h.propertyKeyRule
  templateLiteral := h.templateLiteralRule

theorem exhausted : Rules.exhausted.Forms P where
  sequence := .fail
  assignment := .fail
  conditional := .fail
  binary _ := .fail
  exponent := .fail
  unary := .fail
  operand := .fail
  suffixes _ _ _ := .fail
  construction := .fail
  arguments := .fail
  primary := .fail
  asyncFunction? := .fail
  parenthesized _ := .fail
  arrowBody _ _ _ := .fail
  functionExpression _ := .fail
  parameters := .fail
  bindingElement := .fail
  bindingTarget := .fail
  arrayPattern := .fail
  objectPattern := .fail
  arrayLiteral := .fail
  objectLiteral := .fail
  objectMember := .fail
  propertyKey := .fail
  templateLiteral := .fail

end Rules.Forms

/-- Rules for chains of any number of calls return formed phrases. -/
theorem rules_forms (P : String → Prop) (n : Nat) : (Grammar.rules n).Forms P := by
  induction n with
  | zero => exact .exhausted
  | succ n ih => exact ih.step

/-- An expression that is read is formed, and each variable in it is the name of
one of the tokens. -/
theorem expression_formed (P : String → Prop) :
    Yields P Parse.expression fun e => Formed P (.expr e) := by
  refine .bind (rules_forms P _).sequence fun e he => .bind .kind fun _ _ => ?_
  split
  · exact .fail
  · exact .pure he

theorem complete_formed (P : String → Prop) :
    Yields P Parse.complete fun e => Formed P (.expr e) :=
  .bind (expression_formed P) fun _ he => .bind .kind fun _ _ =>
    .ite (fun _ => .pure he) fun _ => .fail

end TemplateVars
