/-
The walk over a tree meets what a recursion over the tree meets.

`Expr.events scopes e` is the recursion: from left to right, a key before its
value, the target of a pattern before its default, the parameters of a function
before its body.

* `walk_task` — a task at the top of the stack meets the events of its own
  recursion and leaves the rest of the stack and the scopes as they were;
* `walk_expr` — so does the walk over a whole tree.

Design notes: a function is the one node whose parts are not walked in the
scopes of the node itself; `leave` takes its scope away again below the tasks it
was put on the stack with.
-/
import TemplateVars.Analysis.Walk

namespace TemplateVars

mutual

/-- What reading an expression meets, in source order. -/
def Expr.events (scopes : Scopes) : Expr → List Event
  | .identifier name => [.reference name scopes]
  | .literal _ => []
  | .binary _ left right => left.events scopes ++ right.events scopes
  | .logical _ left right => left.events scopes ++ right.events scopes
  | .unary _ argument => argument.events scopes
  | .conditional test consequent alternate =>
    test.events scopes ++ consequent.events scopes ++ alternate.events scopes
  | .member base property _ => base.events scopes ++ property.events scopes
  | .call callee arguments _ => callee.events scopes ++ eventsOfExprs scopes arguments
  | .array elements => eventsOfElements scopes elements
  | .object properties => eventsOfProperties scopes properties
  | .function _ _ _ params (.expression body) =>
    let inside := params.flatMap Pattern.boundNames :: scopes
    eventsOfPatterns inside params ++ body.events inside
  | .function style _ _ _ .block => [.passedOver style]
  | .sequence items =>
    .descending items.length "SequenceExpression" :: eventsOfExprs scopes items
  | .assign _ target value =>
    .descending 2 "AssignmentExpression" :: (target.events scopes ++ value.events scopes)
  | .update _ _ argument => .descending 1 "UpdateExpression" :: argument.events scopes
  | .spread argument => .descending 1 "SpreadElement" :: argument.events scopes
  | .new callee arguments =>
    .descending (arguments.length + 1) "NewExpression" ::
      (callee.events scopes ++ eventsOfExprs scopes arguments)
  | .template _ substitutions =>
    .descending substitutions.length "TemplateLiteral" :: eventsOfExprs scopes substitutions
  | .tagged tag quasi =>
    .descending 2 "TaggedTemplateExpression" :: (tag.events scopes ++ quasi.events scopes)
  | .this => [.descending 0 "ThisExpression"]
  | .super => [.descending 0 "Super"]
  | .newTarget => [.descending 0 "MetaProperty"]

def Key.events (scopes : Scopes) : Key → List Event
  | .fixed _ => []
  | .computed expression => expression.events scopes

def Property.events (scopes : Scopes) : Property → List Event
  | .keyed key value _ _ => key.events scopes ++ value.events scopes
  | .spread argument => argument.events scopes

def Pattern.events (scopes : Scopes) : Pattern → List Event
  | .identifier _ => []
  | .object properties => eventsOfPatternProperties scopes properties
  | .array elements => eventsOfPatternElements scopes elements
  | .rest target => target.events scopes
  | .withDefault target value => target.events scopes ++ value.events scopes

def PatternProperty.events (scopes : Scopes) : PatternProperty → List Event
  | .keyed key value => key.events scopes ++ value.events scopes
  | .rest target => target.events scopes

def eventsOfExprs (scopes : Scopes) : List Expr → List Event
  | [] => []
  | e :: rest => e.events scopes ++ eventsOfExprs scopes rest

def eventsOfElements (scopes : Scopes) : List (Option Expr) → List Event
  | [] => []
  | none :: rest => eventsOfElements scopes rest
  | some e :: rest => e.events scopes ++ eventsOfElements scopes rest

def eventsOfProperties (scopes : Scopes) : List Property → List Event
  | [] => []
  | p :: rest => p.events scopes ++ eventsOfProperties scopes rest

def eventsOfPatterns (scopes : Scopes) : List Pattern → List Event
  | [] => []
  | p :: rest => p.events scopes ++ eventsOfPatterns scopes rest

def eventsOfPatternProperties (scopes : Scopes) : List PatternProperty → List Event
  | [] => []
  | p :: rest => p.events scopes ++ eventsOfPatternProperties scopes rest

def eventsOfPatternElements (scopes : Scopes) : List (Option Pattern) → List Event
  | [] => []
  | none :: rest => eventsOfPatternElements scopes rest
  | some p :: rest => p.events scopes ++ eventsOfPatternElements scopes rest

end

/-- The parts of an expression, those of a function included. -/
def Expr.inner : Expr → List Task
  | .function _ _ _ params (.expression body) => params.map Task.pattern ++ [.expr body]
  | e => e.parts

namespace Task

/-- What a task meets in the given scopes. -/
def events (scopes : Scopes) : Task → List Event
  | expr e => e.events scopes
  | pattern p => p.events scopes
  | key k => k.events scopes
  | leave => []

/-- The parts of a task. -/
def inner : Task → List Task
  | expr e => e.inner
  | pattern p => p.parts
  | key k => k.parts
  | leave => []

theorem size_le_sizeAll {t : Task} {ts : List Task} (h : t ∈ ts) : t.size ≤ sizeAll ts := by
  induction ts with
  | nil => exact absurd h List.not_mem_nil
  | cons u us ih =>
    rw [sizeAll_cons]
    rcases List.mem_cons.1 h with rfl | h
    · exact Nat.le_add_right _ _
    · exact Nat.le_trans (ih h) (Nat.le_add_left _ _)

theorem sizeAll_exprInner (e : Expr) : sizeAll e.inner < sizeOf e := by
  unfold Expr.inner
  split
  · next params body =>
    have := sizeAll_patterns params
    simp [size]
    omega
  · exact sizeAll_exprParts e

/-- Induction over the parts of a tree. -/
theorem induction_inner {motive : Task → Prop}
    (step : ∀ t, (∀ u ∈ t.inner, motive u) → motive t) (t : Task) : motive t := by
  -- strong induction on the size: no one family of the tree holds all the parts
  induction hn : t.size using Nat.strongRecOn generalizing t with
  | _ n ih =>
    refine step t fun u hu => ih u.size ?_ u rfl
    have hle := size_le_sizeAll hu
    rw [← hn]
    cases t with
    | expr e => exact Nat.lt_of_le_of_lt hle (sizeAll_exprInner e)
    | pattern p => exact Nat.lt_of_le_of_lt hle (sizeAll_patternParts p)
    | key k => exact Nat.lt_of_le_of_lt hle (sizeAll_keyParts k)
    | leave => exact absurd hu List.not_mem_nil

end Task

/-! ### Events by parts

What a list of parts meets is what its tasks meet, one after the other. -/

section

variable (scopes : Scopes)

theorem eventsOfExprs_eq (es : List Expr) :
    eventsOfExprs scopes es = (es.map Task.expr).flatMap (Task.events scopes) := by
  induction es with
  | nil => rfl
  | cons e es ih => rw [eventsOfExprs, ih]; rfl

theorem eventsOfElements_eq (es : List (Option Expr)) :
    eventsOfElements scopes es =
      (es.filterMap fun e => e.map Task.expr).flatMap (Task.events scopes) := by
  induction es with
  | nil => rfl
  | cons e es ih => cases e <;> rw [eventsOfElements, ih] <;> rfl

theorem eventsOfPatterns_eq (ps : List Pattern) :
    eventsOfPatterns scopes ps = (ps.map Task.pattern).flatMap (Task.events scopes) := by
  induction ps with
  | nil => rfl
  | cons p ps ih => rw [eventsOfPatterns, ih]; rfl

theorem eventsOfPatternElements_eq (ps : List (Option Pattern)) :
    eventsOfPatternElements scopes ps =
      (ps.filterMap fun p => p.map Task.pattern).flatMap (Task.events scopes) := by
  induction ps with
  | nil => rfl
  | cons p ps ih => cases p <;> rw [eventsOfPatternElements, ih] <;> rfl

theorem Key.events_eq (k : Key) : k.events scopes = k.parts.flatMap (Task.events scopes) := by
  cases k <;> simp [Key.events, Key.parts, Task.events]

theorem eventsOfProperties_eq (ps : List Property) :
    eventsOfProperties scopes ps =
      (ps.flatMap Property.parts).flatMap (Task.events scopes) := by
  induction ps with
  | nil => rfl
  | cons p ps ih =>
    rw [eventsOfProperties, ih, List.flatMap_cons, List.flatMap_append]
    cases p <;> simp [Property.events, Property.parts, Task.events]

theorem eventsOfPatternProperties_eq (ps : List PatternProperty) :
    eventsOfPatternProperties scopes ps =
      (ps.flatMap PatternProperty.parts).flatMap (Task.events scopes) := by
  induction ps with
  | nil => rfl
  | cons p ps ih =>
    rw [eventsOfPatternProperties, ih, List.flatMap_cons, List.flatMap_append]
    cases p <;> simp [PatternProperty.events, PatternProperty.parts, Task.events]

theorem Pattern.events_eq (p : Pattern) :
    p.events scopes = p.parts.flatMap (Task.events scopes) := by
  cases p with
  | identifier => rfl
  | object properties => exact eventsOfPatternProperties_eq scopes properties
  | array elements => exact eventsOfPatternElements_eq scopes elements
  | rest target => simp [Pattern.events, Pattern.parts, Task.events]
  | withDefault target value => simp [Pattern.events, Pattern.parts, Task.events]

/-- An expression meets what it is entered with, and then what its parts meet
in the scopes that hold for them. -/
theorem Expr.events_eq (e : Expr) :
    e.events scopes =
      (e.enter scopes).1 ++ e.inner.flatMap (Task.events (e.enter scopes).2.2) := by
  match e with
  | .function _ _ _ params (.expression body) =>
    simp [Expr.events, Expr.enter, Expr.inner, eventsOfPatterns_eq, Task.events]
  | .function _ _ _ _ .block => rfl
  | .identifier _ | .literal _ | .binary .. | .logical .. | .unary .. | .conditional ..
  | .member .. | .call .. | .array _ | .object _ | .sequence _ | .assign .. | .update ..
  | .spread _ | .new .. | .template .. | .tagged .. | .this | .super | .newTarget =>
    simp [Expr.events, Expr.enter, Expr.inner, Expr.parts, Expr.isComposite, Expr.nodeKind,
      Task.events, eventsOfExprs_eq, eventsOfElements_eq, eventsOfProperties_eq]

end

/-! ### The stack of tasks -/

/-- Tasks that each meet their own events and leave the rest alone do so one
after the other. -/
theorem walk_append {ts : List Task}
    (h : ∀ t ∈ ts, ∀ rest scopes, walk (t :: rest) scopes =
      (t.events scopes ++ (walk rest scopes).1, (walk rest scopes).2))
    (rest : List Task) (scopes : Scopes) :
    walk (ts ++ rest) scopes =
      (ts.flatMap (Task.events scopes) ++ (walk rest scopes).1, (walk rest scopes).2) := by
  induction ts with
  | nil => rfl
  | cons t ts ih =>
    rw [List.cons_append, h t List.mem_cons_self,
      ih fun u hu => h u (List.mem_cons_of_mem _ hu), List.flatMap_cons, List.append_assoc]

theorem leave_not_mem_inner (t : Task) : .leave ∉ t.inner := by
  intro h
  match t with
  | .expr (.function _ _ _ params (.expression body)) =>
    simp [Task.inner, Expr.inner] at h
  -- objects and their patterns: a part comes from some property
  | .expr (.object properties) =>
    obtain ⟨p, -, hp⟩ := List.mem_flatMap.1 h
    cases p <;> simp [Property.parts] at hp
  | .pattern (.object properties) =>
    obtain ⟨p, -, hp⟩ := List.mem_flatMap.1 h
    cases p <;> simp [PatternProperty.parts] at hp
  | .expr (.function _ _ _ _ .block) | .expr (.identifier _) | .expr (.literal _)
  | .expr (.binary ..) | .expr (.logical ..) | .expr (.unary ..) | .expr (.conditional ..)
  | .expr (.member ..) | .expr (.call ..) | .expr (.array _) | .expr (.sequence _)
  | .expr (.assign ..) | .expr (.update ..) | .expr (.spread _) | .expr (.new ..)
  | .expr (.template ..) | .expr (.tagged ..) | .expr .this | .expr .super
  | .expr .newTarget | .key (.fixed _) | .key (.computed _) | .pattern (.identifier _)
  | .pattern (.array _) | .pattern (.rest _) | .pattern (.withDefault ..) | .leave =>
    simp [Task.inner, Expr.inner, Expr.parts, Pattern.parts, Key.parts] at h

/-- Entering an expression either opens a scope for its parts, which is closed
behind them, or leaves the scopes as they are. -/
theorem Expr.enter_cases (scopes : Scopes) (e : Expr) :
    (∃ bound, e.enter scopes = ([], e.inner ++ [.leave], bound :: scopes)) ∨
      ∃ met, e.enter scopes = (met, e.inner, scopes) := by
  match e with
  | .function _ _ _ params (.expression body) =>
    refine Or.inl ⟨params.flatMap Pattern.boundNames, ?_⟩
    simp [Expr.enter, Expr.inner]
  | .function style _ _ _ .block => exact Or.inr ⟨[.passedOver style], rfl⟩
  | .identifier name => exact Or.inr ⟨[.reference name scopes], rfl⟩
  | .literal _ | .binary .. | .logical .. | .unary .. | .conditional .. | .member ..
  | .call .. | .array _ | .object _ | .sequence _ | .assign .. | .update .. | .spread _
  | .new .. | .template .. | .tagged .. | .this | .super | .newTarget =>
    exact Or.inr ⟨_, rfl⟩

/-- A task on top of the stack meets its own events, whatever is below it, and
the rest is walked in the scopes that were in force before. -/
theorem walk_task (t : Task) (ht : t ≠ .leave) (rest : List Task) (scopes : Scopes) :
    walk (t :: rest) scopes = (t.events scopes ++ (walk rest scopes).1, (walk rest scopes).2) := by
  -- for every rest and every scopes: the parts stand above other tasks than `t`
  induction t using Task.induction_inner generalizing rest scopes with
  | step t ih =>
  have parts := walk_append fun u hu => ih u hu fun h => leave_not_mem_inner t (h ▸ hu)
  cases t with
  | leave => exact absurd rfl ht
  | key k =>
    rw [walk, Task.events, Key.events_eq]
    exact parts rest scopes
  | pattern p =>
    rw [walk, Task.events, Pattern.events_eq]
    exact parts rest scopes
  | expr e =>
    rw [Task.inner] at parts
    rw [walk, Task.events, Expr.events_eq]
    rcases e.enter_cases scopes with ⟨bound, h⟩ | ⟨met, h⟩
    · -- the scope of a function is gone when the rest is reached
      have hleave : walk (.leave :: rest) (bound :: scopes) = walk rest scopes := by
        rw [walk, List.tail_cons]
      simp only [h, List.append_assoc, List.singleton_append, parts, hleave, List.nil_append]
    · simp only [h, parts, List.append_assoc]

/-- The walk over a tree meets the events of the tree and closes every scope it
has opened. -/
theorem walk_expr (e : Expr) (scopes : Scopes) :
    walk [.expr e] scopes = (e.events scopes, scopes) := by
  have hnil : walk [] scopes = ([], scopes) := by rw [walk]
  rw [walk_task (.expr e) (by rintro ⟨⟩), hnil, List.append_nil, Task.events]

end TemplateVars
