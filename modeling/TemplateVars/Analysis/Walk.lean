/-
The walk over a tree that finds its free variables.

The walk works off a stack of tasks and keeps a stack of scopes, one for each
function whose parameters and body it is in.  It reports what it meets as a list
of events, in source order:

* each identifier that is read, with the scopes in force;
* each composite node without a rule of its own, with the number of its parts;
* each function whose body is a block; its inside is not walked.

Design notes: a chain `a + b + …` nests as deep as it is long, which the stack of
tasks takes without nested calls.  A task's size bounds what it can turn into,
so the walk ends.
-/
import TemplateVars.Expr.Basic

namespace TemplateVars

/-- Something left to be walked. -/
inductive Task where
  | expr (e : Expr)
  | pattern (p : Pattern)
  | key (k : Key)
  /-- The innermost scope ends. -/
  | leave

/-- The names that enclosing functions bind, innermost function first. -/
abbrev Scopes := List (List String)

/-- Something the walk meets. -/
inductive Event where
  | reference (name : String) (scopes : Scopes)
  | descending (parts : Nat) (nodeKind : String)
  | passedOver (style : FunctionStyle)
  deriving DecidableEq, Repr

/-- A computed key is walked, a written one is not. -/
def Key.parts : Key → List Task
  | .fixed _ => []
  | .computed e => [.expr e]

def Property.parts : Property → List Task
  | .keyed key value _ _ => [.key key, .expr value]
  | .spread argument => [.expr argument]

def PatternProperty.parts : PatternProperty → List Task
  | .keyed key value => [.key key, .pattern value]
  | .rest target => [.pattern target]

/-- The parts of a pattern, in source order. -/
def Pattern.parts : Pattern → List Task
  | .identifier _ => []
  | .object properties => properties.flatMap PatternProperty.parts
  | .array elements => elements.filterMap fun element => element.map Task.pattern
  | .rest target => [.pattern target]
  | .withDefault target value => [.pattern target, .expr value]

/-- The parts of an expression other than a function, in source order. -/
def Expr.parts : Expr → List Task
  | .identifier _ => []
  | .literal _ => []
  | .binary _ left right => [.expr left, .expr right]
  | .logical _ left right => [.expr left, .expr right]
  | .unary _ argument => [.expr argument]
  | .conditional test consequent alternate => [.expr test, .expr consequent, .expr alternate]
  | .member base property _ => [.expr base, .key property]
  | .call callee arguments _ => .expr callee :: arguments.map Task.expr
  | .array elements => elements.filterMap fun element => element.map Task.expr
  | .object properties => properties.flatMap Property.parts
  | .function .. => []
  | .sequence items => items.map Task.expr
  | .assign _ target value => [.expr target, .expr value]
  | .update _ _ argument => [.expr argument]
  | .spread argument => [.expr argument]
  | .new callee arguments => .expr callee :: arguments.map Task.expr
  | .template _ substitutions => substitutions.map Task.expr
  | .tagged tag quasi => [.expr tag, .expr quasi]
  | .this => []
  | .super => []
  | .newTarget => []

/-- Whether a node has no rule of its own and only hands the walk on. -/
def Expr.isComposite : Expr → Bool
  | .sequence _ => true
  | .assign .. => true
  | .update .. => true
  | .spread _ => true
  | .new .. => true
  | .template .. => true
  | .tagged .. => true
  | .this => true
  | .super => true
  | .newTarget => true
  | _ => false

namespace Task

/-- A bound on the work in a task. -/
noncomputable def size : Task → Nat
  | expr e => sizeOf e
  | pattern p => sizeOf p
  | key k => sizeOf k
  | leave => 1

noncomputable def sizeAll (tasks : List Task) : Nat := tasks.foldr (fun t n => t.size + n) 0

@[simp] theorem sizeAll_nil : sizeAll [] = 0 := rfl

@[simp] theorem sizeAll_cons (t : Task) (ts : List Task) :
    sizeAll (t :: ts) = t.size + sizeAll ts := rfl

@[simp] theorem sizeAll_append (ts us : List Task) :
    sizeAll (ts ++ us) = sizeAll ts + sizeAll us := by
  induction ts with
  | nil => rw [List.nil_append, sizeAll_nil, Nat.zero_add]
  | cons t ts ih => rw [List.cons_append, sizeAll_cons, sizeAll_cons, ih, Nat.add_assoc]

theorem sizeAll_exprs (es : List Expr) : sizeAll (es.map expr) < sizeOf es := by
  induction es with
  | nil => simp
  | cons e es ih => simp [size]; omega

theorem sizeAll_patterns (ps : List Pattern) : sizeAll (ps.map pattern) < sizeOf ps := by
  induction ps with
  | nil => simp
  | cons p ps ih => simp [size]; omega

theorem sizeAll_elements (es : List (Option Expr)) :
    sizeAll (es.filterMap fun e => e.map expr) < sizeOf es := by
  induction es with
  | nil => simp
  | cons e es ih => cases e <;> simp [size] <;> omega

theorem sizeAll_patternElements (ps : List (Option Pattern)) :
    sizeAll (ps.filterMap fun p => p.map pattern) < sizeOf ps := by
  induction ps with
  | nil => simp
  | cons p ps ih => cases p <;> simp [size] <;> omega

theorem sizeAll_properties (ps : List Property) :
    sizeAll (ps.flatMap Property.parts) < sizeOf ps := by
  induction ps with
  | nil => simp
  | cons p ps ih => cases p <;> simp [Property.parts, size] <;> omega

theorem sizeAll_patternProperties (ps : List PatternProperty) :
    sizeAll (ps.flatMap PatternProperty.parts) < sizeOf ps := by
  induction ps with
  | nil => simp
  | cons p ps ih => cases p <;> simp [PatternProperty.parts, size] <;> omega

theorem sizeAll_keyParts (k : Key) : sizeAll k.parts < sizeOf k := by
  cases k with
  | fixed => simp only [Key.parts, sizeAll_nil, Key.fixed.sizeOf_spec]; omega
  | computed e =>
    simp only [Key.parts, sizeAll_cons, sizeAll_nil, size, Key.computed.sizeOf_spec]; omega

theorem sizeAll_patternParts (p : Pattern) : sizeAll p.parts < sizeOf p := by
  cases p with
  | identifier => simp only [Pattern.parts, sizeAll_nil, Pattern.identifier.sizeOf_spec]; omega
  | object ps => have := sizeAll_patternProperties ps; simp [Pattern.parts]; omega
  | array es => have := sizeAll_patternElements es; simp [Pattern.parts]; omega
  | rest => simp [Pattern.parts, size]
  | withDefault => simp [Pattern.parts, size]

theorem sizeAll_exprParts (e : Expr) : sizeAll e.parts < sizeOf e := by
  cases e with
  | call callee arguments _ =>
    have := sizeAll_exprs arguments; simp [Expr.parts, size]; omega
  | array elements => have := sizeAll_elements elements; simp [Expr.parts]; omega
  | object properties => have := sizeAll_properties properties; simp [Expr.parts]; omega
  | sequence items => have := sizeAll_exprs items; simp [Expr.parts]; omega
  | new callee arguments =>
    have := sizeAll_exprs arguments; simp [Expr.parts, size]; omega
  | template _ substitutions =>
    have := sizeAll_exprs substitutions; simp [Expr.parts]; omega
  | _ => simp [Expr.parts, size] <;> omega

end Task

/-- What to do at an expression: an event if there is one, the tasks it turns
into, and the scopes from there on. -/
def Expr.enter (scopes : Scopes) : Expr → List Event × List Task × Scopes
  | .identifier name => ([.reference name scopes], [], scopes)
  | .function _ _ _ params (.expression body) =>
    ([], params.map Task.pattern ++ [.expr body, .leave],
      params.flatMap Pattern.boundNames :: scopes)
  | .function style _ _ _ .block => ([.passedOver style], [], scopes)
  | e =>
    (if e.isComposite then [.descending e.parts.length e.nodeKind] else [], e.parts, scopes)

theorem Expr.sizeAll_enter (scopes : Scopes) (e : Expr) :
    Task.sizeAll (e.enter scopes).2.1 < sizeOf e := by
  unfold Expr.enter
  split
  · simp only [Task.sizeAll_nil, Expr.identifier.sizeOf_spec]; omega
  · next params body =>
    have := Task.sizeAll_patterns params
    simp [Task.size]; omega
  · simp
  · exact Task.sizeAll_exprParts _

/-- Works off a stack of tasks: the events in order, and the scopes left. -/
def walk : List Task → Scopes → List Event × Scopes
  | [], scopes => ([], scopes)
  | .leave :: rest, scopes => walk rest scopes.tail
  | .key k :: rest, scopes => walk (k.parts ++ rest) scopes
  | .pattern p :: rest, scopes => walk (p.parts ++ rest) scopes
  | .expr e :: rest, scopes =>
    let entered := e.enter scopes
    let (later, final) := walk (entered.2.1 ++ rest) entered.2.2
    (entered.1 ++ later, final)
termination_by tasks => Task.sizeAll tasks
decreasing_by
  · simp [Task.size]
  · have := Task.sizeAll_keyParts k
    simp only [Task.sizeAll_append, Task.sizeAll_cons, Task.size]; omega
  · have := Task.sizeAll_patternParts p
    simp only [Task.sizeAll_append, Task.sizeAll_cons, Task.size]; omega
  · have := e.sizeAll_enter scopes
    simp only [Task.sizeAll_append, Task.sizeAll_cons, Task.size]
    omega

end TemplateVars
