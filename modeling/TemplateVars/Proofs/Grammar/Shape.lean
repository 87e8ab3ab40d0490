/-
The shape of the trees that are read.

A type of trees allows more than the grammar builds.  `Node.Shaped` says of a node, by
what is right below it, that it is as the grammar builds it: how many parts each kind of
expression has, where a `...` may stand, how functions, members of objects and patterns go
together with their names, flags and targets.

* `Node.Within` — which nodes a tree has, at any depth;
* `call_shaped` — all nodes of a tree that is read are shaped.

Design notes: what is shown of each node speaks of no grammar; that trees are formed as
the rules say, `Formed`, is what carries it from a node to those below.  `Expr.other?` has
a list of parts where an expression has a field for each.  So some of what `Shaped` says is
carried by the constructors of `Expr`: the number of parts of an assignment, an update, a
`...`, `this`, `super` and `new.target`, that `new` and a tagged template have a first
part, and that the name of a member is an identifier.  The rest comes from the grammar: two
items at least in a sequence, one piece more than there are substitutions, a template
behind a tag, the places of `...`, the names, bodies and rests of functions, the methods
and lone names among the members of an object, and what stands behind a rest or in front of
a default.
-/
import Mathlib.Data.List.ReduceOption
import Mathlib.Logic.Relation
import TemplateVars.Proofs.Grammar.Calls
import TemplateVars.Proofs.Grammar.Formed

namespace TemplateVars

/-! ### Nodes -/

/-- A node of a tree. -/
inductive Node where
  | expr (e : Expr)
  | property (p : Property)
  | pattern (p : Pattern)
  | patternProperty (p : PatternProperty)

/-- The expression of a name between brackets. -/
def Key.expressions : Key → List Expr
  | fixed _ => []
  | computed e => [e]

namespace Node

/-- The expressions right below a node, except those in a list of elements or arguments. -/
def operands : Node → List Expr
  | expr (.binary _ left right) => [left, right]
  | expr (.logical _ left right) => [left, right]
  | expr (.unary _ argument) => [argument]
  | expr (.conditional test consequent alternate) => [test, consequent, alternate]
  | expr (.member base key _) => base :: key.expressions
  | expr (.call callee _ _) => [callee]
  | expr (.function _ _ _ _ (.expression value)) => [value]
  | expr (.sequence items) => items
  | expr (.assign _ target value) => [target, value]
  | expr (.update _ _ argument) => [argument]
  | expr (.spread argument) => [argument]
  | expr (.new callee _) => [callee]
  | expr (.template _ substitutions) => substitutions
  | expr (.tagged tag quasi) => [tag, quasi]
  | expr _ => []
  | property (.keyed key value _ _) => value :: key.expressions
  | property (.spread argument) => [argument]
  | pattern (.withDefault _ value) => [value]
  | pattern _ => []
  | patternProperty (.keyed key _) => key.expressions
  | patternProperty (.rest _) => []

/-- The elements of an array literal, and the arguments of a call or behind `new`. -/
def listed : Node → List Expr
  | expr (.array elements) => elements.reduceOption
  | expr (.call _ arguments _) => arguments
  | expr (.new _ arguments) => arguments
  | _ => []

/-- What else stands right below a node. -/
def members : Node → List Node
  | expr (.object properties) => properties.map property
  | expr (.function _ _ _ params _) => params.map pattern
  | pattern (.object properties) => properties.map patternProperty
  | pattern (.array elements) => elements.reduceOption.map pattern
  | pattern (.rest target) => [pattern target]
  | pattern (.withDefault target _) => [pattern target]
  | patternProperty (.keyed _ value) => [pattern value]
  | patternProperty (.rest target) => [pattern target]
  | _ => []

/-- The nodes right below a node. -/
def children (n : Node) : List Node := (n.operands ++ n.listed).map expr ++ n.members

/-- Whether a node is in a tree, at any depth. -/
def Within (n root : Node) : Prop :=
  Relation.ReflTransGen (fun parent child => child ∈ parent.children) root n

end Node

/-! ### Shapes -/

/-- The kinds of expressions that have no more than a list of parts. -/
inductive OtherKind where
  | sequence
  | assign (operator : AssignOperator)
  | update (operator : UpdateOperator) (place : UpdatePlace)
  | spread
  | new
  | template (quasis : List String)
  | tagged
  | this
  | super
  | newTarget

/-- An expression of such a kind, and the list of its parts. -/
def Expr.other? : Expr → Option (OtherKind × List Expr)
  | sequence items => some (.sequence, items)
  | assign op target value => some (.assign op, [target, value])
  | update op place argument => some (.update op place, [argument])
  | spread argument => some (.spread, [argument])
  | new callee arguments => some (.new, callee :: arguments)
  | template quasis substitutions => some (.template quasis, substitutions)
  | tagged tag quasi => some (.tagged, [tag, quasi])
  | this => some (.this, [])
  | super => some (.super, [])
  | newTarget => some (.newTarget, [])
  | _ => none

/-- The parts that an expression of some kind may have. -/
def OtherKind.Admits : OtherKind → List Expr → Prop
  | sequence, parts => 2 ≤ parts.length
  | assign _, parts => parts.length = 2
  | update _ _, parts => parts.length = 1
  | spread, parts => parts.length = 1
  | new, parts => 1 ≤ parts.length
  | template quasis, parts => quasis.length = parts.length + 1
  | tagged, parts => ∃ tag quasis substitutions, parts = [tag, .template quasis substitutions]
  | this, parts => parts = []
  | super, parts => parts = []
  | newTarget, parts => parts = []

/-- The object and the property of a member, and whether that is computed; a name is an
identifier. -/
def Expr.member? : Expr → Option (Expr × Expr × Bool)
  | member base (.fixed name) _ => some (base, identifier name, false)
  | member base (.computed property) _ => some (base, property, true)
  | _ => none

/-- Whether an expression has the parts that its kind has; and if it is a function, it has a
name or a body only where the style of it does. -/
def Expr.Shaped (e : Expr) : Prop :=
  (∀ kind parts, e.other? = some (kind, parts) → kind.Admits parts) ∧
  (∀ object property, e.member? = some (object, property, false) →
    ∃ name, property = .identifier name) ∧
  ∀ style isAsync name params body, e = .function style isAsync name params body →
    RestLast params ∧ (style = .arrow → name = none) ∧ (style = .expression → body = .block)

/-- Whether a method is a function with the name of the member, and a name that stands alone
is that of its value. -/
def Property.Shaped : Property → Prop
  | keyed key value kind shorthand =>
    (kind ≠ .init → shorthand = false ∧ ∃ isAsync name params body,
      value = .function .expression isAsync name params body ∧
      match key with
      | .fixed text => name = some text
      | .computed _ => name = none) ∧
    (shorthand = true → kind = .init ∧ ∃ name, key = .fixed name ∧
      (value = .identifier name ∨ ∃ value', value = .assign .plain (.identifier name) value'))
  | spread _ => True

/-- Whether a pattern may stand behind `...` or in front of a default. -/
def Pattern.isTarget : Pattern → Bool
  | rest _ => false
  | withDefault _ _ => false
  | _ => true

/-- Whether a rest is the last element, and the target of a rest or default is neither. -/
def Pattern.Shaped : Pattern → Prop
  | array elements => ElementRestLast elements
  | rest target => target.isTarget = true
  | withDefault target _ => target.isTarget = true
  | _ => True

/-- Whether a value is no rest, and the target of a rest is neither a rest nor a default. -/
def PatternProperty.Shaped : PatternProperty → Prop
  | keyed _ value => value.isRest = false
  | rest target => target.isTarget = true

/-- Whether a node is as the grammar builds it.  A `...` stands in lists only. -/
def Node.Shaped (n : Node) : Prop :=
  (∀ e ∈ n.operands, e.isSpread = false) ∧
  match n with
  | expr e => e.Shaped
  | property p => p.Shaped
  | pattern p => p.Shaped
  | patternProperty p => p.Shaped

/-! ### Formed nodes -/

/-- Whether a node is one that the grammar forms. -/
def Node.Formed (P : String → Prop) : Node → Prop
  | expr e => TemplateVars.Formed P (.argument e)
  | property p => TemplateVars.Formed P (.property p)
  | pattern p => TemplateVars.Formed P (.parameter p)
  | patternProperty p => TemplateVars.Formed P (.patternProperty p)

namespace Formed

variable {P : String → Prop}

theorem isTarget {p : Pattern} (h : Formed P (.target p)) : p.isTarget = true := by
  cases h <;> rfl

theorem keyed {k : Key} (h : Formed P (.key k)) : ∀ e ∈ k.expressions, Formed P (.expr e) := by
  cases h with
  | fixed => exact nofun
  | computed he => exact List.forall_mem_singleton.2 he

theorem operands_expr {e : Expr} (h : Formed P (.expr e)) :
    ∀ a ∈ (Node.expr e).operands, Formed P (.expr a) := by
  cases h with
  | binary _ hl hr => simpa [Node.operands] using ⟨hl, hr⟩
  | logical _ hl hr => simpa [Node.operands] using ⟨hl, hr⟩
  | unary _ ha => simpa [Node.operands] using ha
  | conditional ht hc ha => simpa [Node.operands] using ⟨ht, hc, ha⟩
  | member hb hp => simpa [Node.operands] using ⟨hb, hp.keyed⟩
  | call hc => simpa [Node.operands] using hc
  | arrow _ _ _ hb => simpa [Node.operands] using hb
  | sequence _ hitems => simpa [Node.operands] using hitems
  | assign _ ht hv => simpa [Node.operands] using ⟨ht, hv⟩
  | update _ _ ha => simpa [Node.operands] using ha
  | new hc => simpa [Node.operands] using hc
  | template _ hparts => simpa [Node.operands] using hparts
  | tagged ht hlen hparts => simpa [Node.operands] using ⟨ht, .template hlen hparts⟩
  | _ => exact fun _ ha => absurd ha List.not_mem_nil

theorem shaped_expr {e : Expr} (h : Formed P (.expr e)) : e.Shaped := by
  refine ⟨fun kind parts hparts => ?_, fun base property hmember => ?_,
    fun style isAsync name params body hfunction => ?_⟩
  · cases h with
    | sequence hlen => cases hparts; exact hlen
    | template hlen => cases hparts; exact hlen
    | tagged => cases hparts; exact ⟨_, _, _, rfl⟩
    | assign => cases hparts; rfl
    | update => cases hparts; rfl
    | new => cases hparts; exact Nat.succ_pos _
    | this => cases hparts; rfl
    | super => cases hparts; rfl
    | newTarget => cases hparts; rfl
    | _ => exact nomatch hparts
  · cases h with
    | @member base key _ _ _ =>
      cases key with
      | fixed name => cases hmember; exact ⟨name, rfl⟩
      | computed => exact nomatch hmember
    | _ => exact nomatch hmember
  · cases h with
    | arrow _ _ hlast => cases hfunction; exact ⟨hlast, fun _ => rfl, nofun⟩
    | arrowBlock _ _ hlast => cases hfunction; exact ⟨hlast, fun _ => rfl, nofun⟩
    | function _ _ _ hlast => cases hfunction; exact ⟨hlast, nofun, fun _ => rfl⟩
    | _ => exact nomatch hfunction

end Formed

namespace Node.Formed

variable {P : String → Prop} {n : Node}

/-- The operands of a formed node are expressions. -/
theorem operands (h : n.Formed P) : ∀ e ∈ n.operands, TemplateVars.Formed P (.expr e) := by
  cases n with
  | expr e =>
    cases h with
    | argument he => exact he.operands_expr
    | spread he => simpa [Node.operands] using he
  | property p =>
    cases h with
    | value hk he => simpa [Node.operands] using ⟨he, hk.keyed⟩
    | shorthand hname => simpa [Node.operands, Key.expressions] using .identifier hname
    | shorthandDefault hname he =>
      simpa [Node.operands, Key.expressions] using .assign _ (.identifier hname) he
    | method _ _ hk hps hlast =>
      simpa [Node.operands] using ⟨.function _ _ hps hlast, hk.keyed⟩
    | spreadProperty he => simpa [Node.operands] using he
  | pattern p =>
    cases h with
    | rest => exact fun _ ha => absurd ha List.not_mem_nil
    | binding hp =>
      cases hp with
      | target hp => cases hp <;> exact fun _ ha => absurd ha List.not_mem_nil
      | default _ he => simpa [Node.operands] using he
  | patternProperty p =>
    cases h with
    | patternValue hk hp => exact hk.keyed
    | patternRest => exact fun _ ha => absurd ha List.not_mem_nil

/-- What is listed below a formed node may begin with `...`. -/
theorem listed (h : n.Formed P) : ∀ e ∈ n.listed, TemplateVars.Formed P (.argument e) := by
  have none : ∀ e ∈ ([] : List Expr), TemplateVars.Formed P (.argument e) := nofun
  cases n with
  | expr e =>
    cases h with
    | argument he =>
      cases he with
      | array helements => exact fun e he => helements e (List.reduceOption_mem_iff.1 he)
      | call _ ha => exact ha
      | new _ ha => exact ha
      | _ => exact none
    | spread => exact none
  | _ => exact none

theorem members (h : n.Formed P) : ∀ m ∈ n.members, m.Formed P := by
  have none : ∀ m ∈ ([] : List Node), m.Formed P := nofun
  have params : ∀ {ps : List Pattern}, (∀ p ∈ ps, TemplateVars.Formed P (.parameter p)) →
      ∀ m ∈ ps.map Node.pattern, m.Formed P :=
    fun hps => List.forall_mem_map.2 hps
  cases n with
  | expr e =>
    cases h with
    | argument he =>
      cases he with
      | object hps => exact List.forall_mem_map.2 hps
      | arrow _ hps => exact params hps
      | arrowBlock _ hps => exact params hps
      | function _ _ hps => exact params hps
      | _ => exact none
    | spread => exact none
  | property p => exact none
  | pattern p =>
    cases h with
    | rest hp => exact List.forall_mem_singleton.2 (.binding (.target hp))
    | binding hp =>
      cases hp with
      | target hp =>
        cases hp with
        | name => exact none
        | objectTarget hps => exact List.forall_mem_map.2 hps
        | arrayTarget hes => exact params fun p hp => hes p (List.reduceOption_mem_iff.1 hp)
      | default hp => exact List.forall_mem_singleton.2 (.binding (.target hp))
  | patternProperty p =>
    cases h with
    | patternValue _ hp => exact List.forall_mem_singleton.2 (.binding hp)
    | patternRest hp => exact List.forall_mem_singleton.2 (.binding (.target hp))

/-- The nodes right below a formed node are formed. -/
theorem children (h : n.Formed P) : ∀ m ∈ n.children, m.Formed P := by
  intro m hm
  rcases List.mem_append.1 hm with hm | hm
  · obtain ⟨e, he, rfl⟩ := List.mem_map.1 hm
    rcases List.mem_append.1 he with he | he
    · exact .argument (h.operands e he)
    · exact h.listed e he
  · exact h.members m hm

theorem shaped (h : n.Formed P) : n.Shaped := by
  refine ⟨fun e he => (h.operands e he).isSpread_eq_false, ?_⟩
  cases n with
  | expr e =>
    cases h with
    | argument he => exact he.shaped_expr
    | spread => exact ⟨fun _ _ hparts => by cases hparts; rfl, nofun, nofun⟩
  | property p =>
    cases h with
    | value => exact ⟨fun h => absurd rfl h, nofun⟩
    | shorthand => exact ⟨fun h => absurd rfl h, fun _ => ⟨rfl, _, rfl, .inl rfl⟩⟩
    | shorthandDefault => exact ⟨fun h => absurd rfl h, fun _ => ⟨rfl, _, rfl, .inr ⟨_, rfl⟩⟩⟩
    | @method _ key =>
      refine ⟨fun _ => ⟨rfl, _, _, _, _, rfl, ?_⟩, nofun⟩
      cases key <;> rfl
    | spreadProperty => trivial
  | pattern p =>
    cases h with
    | rest hp => exact hp.isTarget
    | binding hp =>
      cases hp with
      | target hp =>
        cases hp with
        | arrayTarget _ hlast => exact hlast
        | _ => trivial
      | default hp => exact hp.isTarget
  | patternProperty p =>
    cases h with
    | patternValue _ hp => exact hp.isRest_eq_false
    | patternRest hp => exact hp.isTarget

/-- All nodes of a formed tree are formed. -/
theorem within {root : Node} (h : root.Formed P) (hn : n.Within root) : n.Formed P := by
  induction hn with
  | refl => exact h
  | tail _ hchild ih => exact ih.children _ hchild

end Node.Formed

/-! ### Trees that are read -/

/-- Each tree that is read, from any tokens, is as the grammar builds it at each node; and
it is not `...` with an expression itself. -/
theorem call_shaped (call : Call) (s : Stream) (e : Expr) (h : (call.reader.run s).1 = .ok e) :
    e.isSpread = false ∧ ∀ n : Node, n.Within (.expr e) → n.Shaped := by
  have hforms : Yields (fun _ => True) call.reader fun e =>
      Formed (fun _ => True) (.expr e) := by
    cases call with
    | expression => exact expression_formed _
    | complete => exact complete_formed _
  cases hrun : call.reader.run s with
  | mk result t =>
    rw [hrun] at h
    subst h
    have he := (Triple.run_ok hforms (fun _ _ _ _ => trivial) hrun).2
    have hroot : (Node.expr e).Formed fun _ => True := .argument he
    exact ⟨he.isSpread_eq_false, fun n hn => (hroot.within hn).shaped⟩

/-- A method with a rest behind a default, a getter with a computed name and a name that
stands alone. -/
theorem call_shaped_members :
    ∃ e, (Call.complete.reader.run
        { rest := tokenize "\x7b m([a = 1, ...b]) \x7b\x7d, get [k]() \x7b\x7d, c \x7d" }).1 =
          .ok e ∧
      e.isSpread = false ∧ ∀ n : Node, n.Within (.expr e) → n.Shaped := by
  generalize hs : Stream.mk
    (tokenize "\x7b m([a = 1, ...b]) \x7b\x7d, get [k]() \x7b\x7d, c \x7d") 0 = s
  have hreads : (Call.complete.reader.run s).1.isOk = true := by
    subst hs
    decide +kernel
  cases hrun : (Call.complete.reader.run s).1 with
  | error error => rw [hrun] at hreads; exact nomatch hreads
  | ok e => exact ⟨e, rfl, call_shaped .complete s e hrun⟩

end TemplateVars
