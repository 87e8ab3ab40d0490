/-
The stack of calls.

A `RuleCall` is a rule with its arguments, a `Frame` such a call with the stream that it
reads from.  `r.Calls a b` says that with the rules `r` the one frame calls the other:
whatever error the call at `b` fails with, the call at `a` fails with it.

* `Frame.MayCall` — whether a frame calls another with some rules at all that leave as many
  levels open as there were; `Frame.mayCall_of_grammar` is the case of the grammar;
* `Rules.Calls.cost_lt` — a call costs less than the one that it comes from;
* `Frame.chain_length_le` — so a chain of nested calls is no longer than its first call costs.

Design notes: no rule catches an error, so a frame fails with every error that another one
might fail with just if it gets there.  What each rule calls is not gone through once more:
the order among the rules, by which they agree up to a number of steps, holds for rules and
those in which one call fails.
-/
import Mathlib.Data.List.Chain
import Mathlib.Logic.Relation
import TemplateVars.Proofs.Grammar.Levels

namespace TemplateVars

/-- A rule with its arguments. -/
inductive RuleCall where
  | sequence
  | assignment
  | conditional
  | binary (minPrecedence : Nat)
  | exponent
  | unary
  | operand
  | suffixes (allowCalls : Bool) (object : Expr)
  | construction
  | arguments
  | primary
  | asyncFunction?
  | parenthesized (isAsync : Bool)
  | arrowBody (isAsync : Bool) (params : List Pattern)
  | functionExpression (isAsync : Bool)
  | parameters
  | bindingElement
  | bindingTarget
  | arrayPattern
  | objectPattern
  | arrayLiteral
  | objectLiteral
  | objectMember
  | propertyKey
  | templateLiteral

namespace RuleCall

/-- What a rule reads. -/
def Value : RuleCall → Type
  | arguments => List Expr
  | asyncFunction? => Option Expr
  | parameters => List Pattern
  | bindingElement => Pattern
  | bindingTarget => Pattern
  | arrayPattern => Pattern
  | objectPattern => Pattern
  | objectMember => Property
  | propertyKey => Key × Option String
  | _ => Expr

/-- The place of a rule in the order in which a level goes through them, last things
first. -/
def place : RuleCall → Nat
  | assignment => 1
  | construction => 1
  | bindingTarget => 1
  | sequence => 2
  | arrowBody _ _ => 2
  | arguments => 2
  | arrayLiteral => 2
  | propertyKey => 2
  | bindingElement => 2
  | templateLiteral => 3
  | parameters => 3
  | arrayPattern => 3
  | objectPattern => 3
  | functionExpression _ => 4
  | objectMember => 4
  | parenthesized _ => 4
  | suffixes _ _ => 4
  | objectLiteral => 5
  | asyncFunction? => 5
  | primary => 6
  | operand => 7
  | unary => 8
  | exponent => 9
  | binary minPrecedence => 10 + (11 - minPrecedence)
  | conditional => 21

theorem place_bounds (c : RuleCall) : 1 ≤ c.place ∧ c.place ≤ 21 := by
  cases c with
  | binary minPrecedence =>
    show 1 ≤ 10 + (11 - minPrecedence) ∧ 10 + (11 - minPrecedence) ≤ 21
    omega
  | _ => exact ⟨Nat.le_of_ble_eq_true rfl, Nat.le_of_ble_eq_true rfl⟩

/-- Whether two calls are of one rule. -/
def SameRule (c c' : RuleCall) : Prop := c.ctorIdx = c'.ctorIdx

/-- Calls of one rule have one place, except that of infix operators. -/
theorem SameRule.place_eq {c c' : RuleCall} (h : c.SameRule c') :
    c.place = c'.place ∨ ∃ m m', c = .binary m ∧ c' = .binary m' := by
  -- the second call is taken apart only as far as the first one is known
  cases c
  all_goals
    refine RuleCall.ctorElim
      (motive := fun c' => place _ = c'.place ∨ ∃ m m', _ = binary m ∧ c' = binary m') _ c' h ?_
    first
    | exact .up (.inl rfl)
    | exact .up fun _ => .inl rfl
    | exact .up fun _ _ => .inl rfl
    | exact .up fun _ => .inr ⟨_, _, rfl, rfl⟩

end RuleCall

namespace Rules

/-- The reader of a call. -/
def read (r : Rules) : (c : RuleCall) → Parse c.Value
  | .sequence => r.sequence
  | .assignment => r.assignment
  | .conditional => r.conditional
  | .binary minPrecedence => r.binary minPrecedence
  | .exponent => r.exponent
  | .unary => r.unary
  | .operand => r.operand
  | .suffixes allowCalls object => r.suffixes allowCalls object
  | .construction => r.construction
  | .arguments => r.arguments
  | .primary => r.primary
  | .asyncFunction? => r.asyncFunction?
  | .parenthesized isAsync => r.parenthesized isAsync
  | .arrowBody isAsync params => r.arrowBody isAsync params
  | .functionExpression isAsync => r.functionExpression isAsync
  | .parameters => r.parameters
  | .bindingElement => r.bindingElement
  | .bindingTarget => r.bindingTarget
  | .arrayPattern => r.arrayPattern
  | .objectPattern => r.objectPattern
  | .arrayLiteral => r.arrayLiteral
  | .objectLiteral => r.objectLiteral
  | .objectMember => r.objectMember
  | .propertyKey => r.propertyKey
  | .templateLiteral => r.templateLiteral

/-- The rules with a reader for each call. -/
def ofReaders (f : (c : RuleCall) → Parse c.Value) : Rules where
  sequence := f .sequence
  assignment := f .assignment
  conditional := f .conditional
  binary minPrecedence := f (.binary minPrecedence)
  exponent := f .exponent
  unary := f .unary
  operand := f .operand
  suffixes allowCalls object := f (.suffixes allowCalls object)
  construction := f .construction
  arguments := f .arguments
  primary := f .primary
  asyncFunction? := f .asyncFunction?
  parenthesized isAsync := f (.parenthesized isAsync)
  arrowBody isAsync params := f (.arrowBody isAsync params)
  functionExpression isAsync := f (.functionExpression isAsync)
  parameters := f .parameters
  bindingElement := f .bindingElement
  bindingTarget := f .bindingTarget
  arrayPattern := f .arrayPattern
  objectPattern := f .objectPattern
  arrayLiteral := f .arrayLiteral
  objectLiteral := f .objectLiteral
  objectMember := f .objectMember
  propertyKey := f .propertyKey
  templateLiteral := f .templateLiteral

@[simp] theorem read_ofReaders (f : (c : RuleCall) → Parse c.Value) (c : RuleCall) :
    (ofReaders f).read c = f c := by
  cases c <;> rfl

/-- Whether a call leaves as many levels open as there were. -/
def KeepsDepth (r : Rules) : Prop :=
  ∀ (c : RuleCall) (s : Stream), ((r.read c).left s).depth = s.depth

namespace AgreeUpTo

variable {cost : Nat → Nat} {n d : Nat} {r r' : Rules}

/-- Rules that agree up to some steps agree on each call for which these suffice. -/
theorem read (h : r.AgreeUpTo cost n r') (c : RuleCall) (hd : cost d + c.place ≤ n) :
    AgreeAt d (r.read c) (r'.read c) := by
  cases c with
  | sequence => exact h.sequence hd
  | assignment => exact h.assignment hd
  | conditional => exact h.conditional hd
  | binary m =>
    rw [RuleCall.place, ← Nat.add_assoc] at hd
    exact h.binary hd
  | exponent => exact h.exponent hd
  | unary => exact h.unary hd
  | operand => exact h.operand hd
  | suffixes allowCalls object => exact h.suffixes hd allowCalls object
  | construction => exact h.construction hd
  | arguments => exact h.arguments hd
  | primary => exact h.primary hd
  | asyncFunction? => exact h.asyncFunction? hd
  | parenthesized isAsync => exact h.parenthesized hd isAsync
  | arrowBody isAsync params => exact h.arrowBody hd isAsync params
  | functionExpression isAsync => exact h.functionExpression hd isAsync
  | parameters => exact h.parameters hd
  | bindingElement => exact h.bindingElement hd
  | bindingTarget => exact h.bindingTarget hd
  | arrayPattern => exact h.arrayPattern hd
  | objectPattern => exact h.objectPattern hd
  | arrayLiteral => exact h.arrayLiteral hd
  | objectLiteral => exact h.objectLiteral hd
  | objectMember => exact h.objectMember hd
  | propertyKey => exact h.propertyKey hd
  | templateLiteral => exact h.templateLiteral hd

theorem of_read (hcost : ∀ {d : Nat}, d < maxDepth → cost (d + 1) + 32 ≤ cost d)
    (h : ∀ (c : RuleCall) {d : Nat}, cost d + c.place ≤ n → AgreeAt d (r.read c) (r'.read c)) :
    r.AgreeUpTo cost n r' where
  deeper := hcost
  sequence := h .sequence
  assignment := h .assignment
  conditional := h .conditional
  binary {_ m} hd := h (.binary m) (by rwa [RuleCall.place, ← Nat.add_assoc])
  exponent := h .exponent
  unary := h .unary
  operand := h .operand
  suffixes hd allowCalls object := h (.suffixes allowCalls object) hd
  construction := h .construction
  arguments := h .arguments
  primary := h .primary
  asyncFunction? := h .asyncFunction?
  parenthesized hd isAsync := h (.parenthesized isAsync) hd
  arrowBody hd isAsync params := h (.arrowBody isAsync params) hd
  functionExpression hd isAsync := h (.functionExpression isAsync) hd
  parameters := h .parameters
  bindingElement := h .bindingElement
  bindingTarget := h .bindingTarget
  arrayPattern := h .arrayPattern
  objectPattern := h .objectPattern
  arrayLiteral := h .arrayLiteral
  objectLiteral := h .objectLiteral
  objectMember := h .objectMember
  propertyKey := h .propertyKey
  templateLiteral := h .templateLiteral

end AgreeUpTo

end Rules

/-! ### Frames -/

/-- An entry of the stack of calls: a call, and the stream that it reads from. -/
structure Frame where
  call : RuleCall
  stream : Stream

open scoped Classical in
/-- A reader, except that it fails with an error where `P` holds. -/
noncomputable def Parse.failingIn {α : Type} (P : Stream → Prop) (e : ParseError)
    (p : Parse α) : Parse α :=
  fun s => if P s then .error e s else p s

theorem Parse.failingIn_neg {α : Type} {P : Stream → Prop} {e : ParseError} {p : Parse α}
    {s : Stream} (h : ¬P s) : p.failingIn P e s = p s :=
  if_neg h

/-- The rules, except that the call at one frame fails. -/
noncomputable def Rules.failingAt (r : Rules) (b : Frame) (e : ParseError) : Rules :=
  .ofReaders fun c => (r.read c).failingIn (fun s => ⟨c, s⟩ = b) e

/-- Whether with some rules one frame calls another: whatever error the call at the other
one fails with, it fails with that. -/
def Rules.Calls (r : Rules) (a b : Frame) : Prop :=
  ∀ e, ∃ t, (r.failingAt b e).step.read a.call a.stream = .error e t

/-- Rules agree with those in which one call fails wherever that call is out of reach. -/
theorem Rules.KeepsDepth.agree_failingAt {r : Rules} (hr : r.KeepsDepth) {cost : Nat → Nat}
    (hcost : ∀ {d : Nat}, d < maxDepth → cost (d + 1) + 32 ≤ cost d) {b : Frame} {n : Nat}
    (hn : n < cost b.stream.depth + b.call.place) (e : ParseError) :
    r.AgreeUpTo cost n (r.failingAt b e) := by
  refine .of_read hcost fun c d hd s hs => ⟨?_, hs ▸ hr c s⟩
  have hne : ¬Frame.mk c s = b := by
    rintro rfl
    rw [hs] at hn
    exact absurd (Nat.lt_of_lt_of_le hn hd) (Nat.lt_irrefl n)
  rw [failingAt, read_ofReaders]
  exact (Parse.failingIn_neg hne).symm

/-- A call costs less than the one it comes from, however the cost of the levels grows. -/
theorem Rules.Calls.cost_lt {r : Rules} {a b : Frame} (h : r.Calls a b) (hr : r.KeepsDepth)
    {cost : Nat → Nat} (hcost : ∀ {d : Nat}, d < maxDepth → cost (d + 1) + 32 ≤ cost d) :
    cost b.stream.depth + b.call.place < cost a.stream.depth + a.call.place := by
  refine Decidable.byContradiction fun hge => ?_
  -- then the caller does the same whatever the call does, and it cannot fail with each error
  have hplace := b.call.place_bounds.1
  have same : ∀ e, r.step.read a.call a.stream =
      (r.failingAt b e).step.read a.call a.stream := by
    intro e
    have hlt : cost b.stream.depth + b.call.place - 1 < cost b.stream.depth + b.call.place := by
      omega
    have hagree := (hr.agree_failingAt hcost hlt e).step
    exact (hagree.read a.call (by omega) a.stream rfl).1
  obtain ⟨t, ht⟩ := h ⟨0, 0, .tooDeep⟩
  obtain ⟨u, hu⟩ := h ⟨1, 0, .tooDeep⟩
  rw [← same] at ht hu
  have herror := (EStateM.Result.error.inj (ht.symm.trans hu)).1
  exact absurd (congrArg ParseError.line herror) (by decide)

namespace Frame

/-- Whether one frame calls another with some rules that leave as many levels open as there
were. -/
def MayCall (a b : Frame) : Prop := ∃ r : Rules, r.KeepsDepth ∧ r.Calls a b

/-- The steps that a frame and the levels below it may take. -/
def cost (a : Frame) : Nat := levelCost a.stream.depth + a.call.place

theorem cost_pos (a : Frame) : 1 ≤ a.cost := by
  have := a.call.place_bounds.1
  unfold cost
  omega

theorem cost_le (a : Frame) : a.cost ≤ Grammar.callsPerLevel * (maxDepth + 1) := by
  have := a.call.place_bounds.2
  have := levelCost_le a.stream.depth
  unfold cost
  omega

variable {a b : Frame}

theorem MayCall.cost_lt (h : a.MayCall b) : b.cost < a.cost := by
  obtain ⟨r, hr, hcalls⟩ := h
  exact hcalls.cost_lt hr fun hd => Nat.le_of_eq (levelCost_succ hd)

/-- A call opens levels and closes none. -/
theorem MayCall.depth_le (h : a.MayCall b) : a.stream.depth ≤ b.stream.depth := by
  obtain ⟨r, hr, hcalls⟩ := h
  refine Decidable.byContradiction fun hlt => ?_
  -- a cost by which all calls with fewer levels open are dear
  let dear (d : Nat) : Nat := levelCost d + if d < a.stream.depth then 21 else 0
  have hdear : ∀ {d : Nat}, d < maxDepth → dear (d + 1) + 32 ≤ dear d := by
    intro d hd
    have := levelCost_succ hd
    simp only [dear]
    split <;> split <;> omega
  have hlt' : dear b.stream.depth + b.call.place < dear a.stream.depth + a.call.place :=
    hcalls.cost_lt hr hdear
  have hmono : levelCost a.stream.depth ≤ levelCost b.stream.depth := by
    unfold levelCost Grammar.callsPerLevel
    omega
  have := a.call.place_bounds.2
  have := b.call.place_bounds.1
  simp only [dear, if_pos (Nat.lt_of_not_le hlt), Nat.lt_irrefl, ↓reduceIte] at hlt'
  omega

/-- A chain of nested calls is no longer than its first call costs. -/
theorem chain_length_le {a : Frame} {chain : List Frame}
    (h : (a :: chain).IsChain MayCall) : (a :: chain).length ≤ a.cost := by
  induction chain generalizing a with
  | nil => exact a.cost_pos
  | cons b chain ih =>
    obtain ⟨hab, hchain⟩ := List.isChain_cons_cons.1 h
    have := ih hchain
    have := hab.cost_lt
    simp only [List.length_cons] at *
    omega

/-- Along nested calls costs fall and levels are opened. -/
theorem cost_lt_of_transGen (h : Relation.TransGen MayCall a b) :
    b.cost < a.cost ∧ a.stream.depth ≤ b.stream.depth := by
  induction h with
  | single h => exact ⟨h.cost_lt, h.depth_le⟩
  | tail _ h ih => exact ⟨Nat.lt_trans h.cost_lt ih.1, Nat.le_trans ih.2 h.depth_le⟩

end Frame

/-! ### The grammar -/

theorem grammar_keepsDepth : Grammar.grammar.KeepsDepth := by
  intro c s
  have hplace := c.place_bounds.2
  have hcost := levelCost_le s.depth
  exact ((rules_agree _).read c (by omega) s rfl).2

theorem Frame.mayCall_of_grammar {a b : Frame} (h : Grammar.grammar.Calls a b) : a.MayCall b :=
  ⟨Grammar.grammar, grammar_keepsDepth, h⟩

end TemplateVars
