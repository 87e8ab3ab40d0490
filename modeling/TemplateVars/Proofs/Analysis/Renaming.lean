/-
Renaming the parameters of functions.

The main result is `freeVariables_renameParameter`: if a parameter of a function gets
another name, in the patterns that bind it and wherever the function reads it, then the
trees that the function is in have the free variables that they had.

* `Expr.rename` — one name for another wherever it is read, except within functions that
  bind it;
* `Pattern.rebind` — one name for another wherever a pattern binds it;
* `mem_freeNames_rename` — what is free after a renaming;
* `Replaced.freeNames` — a tree keeps its free names if one of its expressions does.

Design notes: the new name may not occur in the function, or an inner function could bind
what was free in it, but all around it may.  Function bodies that are blocks are no
part of a tree that is read, so nothing is asked of them.
-/
import Mathlib.Data.List.Basic
import TemplateVars.Proofs.Analysis.Free

namespace TemplateVars

/-! ### Renaming -/

mutual

/-- An expression that reads `y` where it read `x`, except within functions that bind
`x`. -/
def Expr.rename (x y : String) : Expr → Expr
  | .identifier name => .identifier (if name = x then y else name)
  | .literal value => .literal value
  | .binary op left right => .binary op (left.rename x y) (right.rename x y)
  | .logical op left right => .logical op (left.rename x y) (right.rename x y)
  | .unary op argument => .unary op (argument.rename x y)
  | .conditional test consequent alternate =>
    .conditional (test.rename x y) (consequent.rename x y) (alternate.rename x y)
  | .member base property optional => .member (base.rename x y) (property.rename x y) optional
  | .call callee arguments optional =>
    .call (callee.rename x y) (renameInExprs x y arguments) optional
  | .array elements => .array (renameInElements x y elements)
  | .object properties => .object (renameInProperties x y properties)
  | .function style isAsync name params (.expression body) =>
    if x ∈ params.flatMap Pattern.boundNames then
      .function style isAsync name params (.expression body)
    else .function style isAsync name (renameInPatterns x y params) (.expression (body.rename x y))
  | .function style isAsync name params .block =>
    .function style isAsync name (renameInPatterns x y params) .block
  | .sequence items => .sequence (renameInExprs x y items)
  | .assign op target value => .assign op (target.rename x y) (value.rename x y)
  | .update op place argument => .update op place (argument.rename x y)
  | .spread argument => .spread (argument.rename x y)
  | .new callee arguments => .new (callee.rename x y) (renameInExprs x y arguments)
  | .template quasis substitutions => .template quasis (renameInExprs x y substitutions)
  | .tagged tag quasi => .tagged (tag.rename x y) (quasi.rename x y)
  | .this => .this
  | .super => .super
  | .newTarget => .newTarget

def Key.rename (x y : String) : Key → Key
  | .fixed name => .fixed name
  | .computed expression => .computed (expression.rename x y)

def Property.rename (x y : String) : Property → Property
  | .keyed key value kind shorthand => .keyed (key.rename x y) (value.rename x y) kind shorthand
  | .spread argument => .spread (argument.rename x y)

/-- A pattern whose defaults and computed keys read `y` where they read `x`. -/
def Pattern.rename (x y : String) : Pattern → Pattern
  | .identifier name => .identifier name
  | .object properties => .object (renameInPatternProperties x y properties)
  | .array elements => .array (renameInPatternElements x y elements)
  | .rest target => .rest (target.rename x y)
  | .withDefault target value => .withDefault (target.rename x y) (value.rename x y)

def PatternProperty.rename (x y : String) : PatternProperty → PatternProperty
  | .keyed key value => .keyed (key.rename x y) (value.rename x y)
  | .rest target => .rest (target.rename x y)

def renameInExprs (x y : String) : List Expr → List Expr
  | [] => []
  | e :: rest => e.rename x y :: renameInExprs x y rest

def renameInElements (x y : String) : List (Option Expr) → List (Option Expr)
  | [] => []
  | none :: rest => none :: renameInElements x y rest
  | some e :: rest => some (e.rename x y) :: renameInElements x y rest

def renameInProperties (x y : String) : List Property → List Property
  | [] => []
  | p :: rest => p.rename x y :: renameInProperties x y rest

def renameInPatterns (x y : String) : List Pattern → List Pattern
  | [] => []
  | p :: rest => p.rename x y :: renameInPatterns x y rest

def renameInPatternProperties (x y : String) : List PatternProperty → List PatternProperty
  | [] => []
  | p :: rest => p.rename x y :: renameInPatternProperties x y rest

def renameInPatternElements (x y : String) : List (Option Pattern) → List (Option Pattern)
  | [] => []
  | none :: rest => none :: renameInPatternElements x y rest
  | some p :: rest => some (p.rename x y) :: renameInPatternElements x y rest

end

mutual

/-- A pattern that binds `y` where it bound `x`. -/
def Pattern.rebind (x y : String) : Pattern → Pattern
  | .identifier name => .identifier (if name = x then y else name)
  | .object properties => .object (rebindInProperties x y properties)
  | .array elements => .array (rebindInElements x y elements)
  | .rest target => .rest (target.rebind x y)
  | .withDefault target value => .withDefault (target.rebind x y) value

def PatternProperty.rebind (x y : String) : PatternProperty → PatternProperty
  | .keyed key value => .keyed key (value.rebind x y)
  | .rest target => .rest (target.rebind x y)

def rebindInProperties (x y : String) : List PatternProperty → List PatternProperty
  | [] => []
  | p :: rest => p.rebind x y :: rebindInProperties x y rest

def rebindInElements (x y : String) : List (Option Pattern) → List (Option Pattern)
  | [] => []
  | none :: rest => none :: rebindInElements x y rest
  | some p :: rest => some (p.rebind x y) :: rebindInElements x y rest

end

/-- A function with `y` for `x` in its parameters and wherever it reads that. -/
def Expr.renameParameter (x y : String) : Expr → Expr
  | .function style isAsync name params (.expression body) =>
    .function style isAsync name (params.map fun p => (p.rename x y).rebind x y)
      (.expression (body.rename x y))
  | e => e

/-- A task with `y` for `x` wherever it reads that. -/
def Task.rename (x y : String) : Task → Task
  | .expr e => .expr (e.rename x y)
  | .pattern p => .pattern (p.rename x y)
  | .key k => .key (k.rename x y)
  | .leave => .leave

/-- A task with `y` for `x` wherever a pattern binds that. -/
def Task.rebind (x y : String) : Task → Task
  | .pattern p => .pattern (p.rebind x y)
  | t => t

/-- Whether a name is read or bound somewhere in a task. -/
inductive Task.Mentions (name : String) : Task → Prop where
  | read : Mentions name (.expr (.identifier name))
  | bound : Mentions name (.pattern (.identifier name))
  | inside {t u : Task} (hu : u ∈ t.inner) (h : Mentions name u) : Mentions name t

/-! ### Names that are mentioned -/

theorem Task.not_mentions {t : Task} {name : String} (hread : t ≠ .expr (.identifier name))
    (hbound : t ≠ .pattern (.identifier name)) (hinner : ∀ u ∈ t.inner, ¬u.Mentions name) :
    ¬t.Mentions name := by
  rintro (_ | _ | ⟨hu, h⟩)
  · exact hread rfl
  · exact hbound rfl
  · exact hinner _ hu h

/-- The names that a task binds. -/
def Task.boundNames : Task → List String
  | .pattern p => p.boundNames
  | _ => []

theorem boundInProperties_eq (ps : List PatternProperty) :
    boundInProperties ps = (ps.flatMap PatternProperty.parts).flatMap Task.boundNames := by
  induction ps with
  | nil => rfl
  | cons p ps ih =>
    rw [boundInProperties, ih, List.flatMap_cons, List.flatMap_append]
    cases p <;> simp [PatternProperty.boundNames, PatternProperty.parts, Task.boundNames]

theorem boundInElements_eq (ps : List (Option Pattern)) :
    boundInElements ps = (ps.filterMap fun p => p.map Task.pattern).flatMap Task.boundNames := by
  induction ps with
  | nil => rfl
  | cons p ps ih => cases p <;> rw [boundInElements, ih] <;> rfl

/-- A pattern other than a name binds what its parts bind. -/
theorem Pattern.boundNames_eq {p : Pattern} (h : ∀ name, p ≠ .identifier name) :
    p.boundNames = p.parts.flatMap Task.boundNames := by
  cases p with
  | identifier name => exact absurd rfl (h name)
  | object properties => exact boundInProperties_eq properties
  | array elements => exact boundInElements_eq elements
  | rest target => simp [Pattern.boundNames, Pattern.parts, Task.boundNames]
  | withDefault target value => simp [Pattern.boundNames, Pattern.parts, Task.boundNames]

theorem mentions_of_bound {t : Task} {name : String} (h : name ∈ t.boundNames) :
    t.Mentions name := by
  induction t using Task.induction_inner with
  | step t ih =>
  cases t with
  | expr | key | leave => exact absurd h List.not_mem_nil
  | pattern p =>
    by_cases hid : ∃ n, p = .identifier n
    · obtain ⟨n, rfl⟩ := hid
      obtain rfl : name = n := List.mem_singleton.1 h
      exact .bound
    · change name ∈ p.boundNames at h
      rw [Pattern.boundNames_eq fun n hn => hid ⟨n, hn⟩] at h
      obtain ⟨u, hu, hname⟩ := List.mem_flatMap.1 h
      exact .inside hu (ih u hu hname)

/-- A function has the free names of its parts, less the ones that its parameters bind. -/
theorem mem_freeNames_function {s : FunctionStyle} {a : Bool} {n : Option String}
    {ps : List Pattern} {b : Expr} {name : String} :
    name ∈ (Expr.function s a n ps (.expression b)).freeNames ↔
      name ∈ (Expr.function s a n ps (.expression b)).inner.flatMap Task.freeNames ∧
        name ∉ ps.flatMap Pattern.boundNames := by
  rw [Expr.freeNames, List.mem_filter, freeInPatterns_eq, Expr.inner, List.flatMap_append,
    List.flatMap_singleton, decide_eq_true_eq]
  rfl

/-- What is free in a task is free in one of its parts. -/
theorem Task.freeNames_inner {t : Task} {name : String} (h : name ∈ t.freeNames) :
    t = .expr (.identifier name) ∨ ∃ u ∈ t.inner, name ∈ u.freeNames := by
  cases t with
  | leave => exact absurd h List.not_mem_nil
  | key k =>
    rw [Task.freeNames, Key.freeNames_eq] at h
    exact .inr (List.mem_flatMap.1 h)
  | pattern p =>
    rw [Task.freeNames, Pattern.freeNames_eq] at h
    exact .inr (List.mem_flatMap.1 h)
  | expr e =>
    by_cases hid : ∃ n, e = .identifier n
    · obtain ⟨n, rfl⟩ := hid
      obtain rfl : name = n := List.mem_singleton.1 h
      exact .inl rfl
    refine .inr ?_
    by_cases hfun : ∃ s a n ps b, e = .function s a n ps (.expression b)
    · obtain ⟨s, a, n, ps, b, rfl⟩ := hfun
      rw [Task.freeNames, mem_freeNames_function] at h
      exact List.mem_flatMap.1 h.1
    · rw [Task.freeNames, Expr.freeNames_eq (fun n hn => hid ⟨n, hn⟩)
        fun s a n ps b hf => hfun ⟨s, a, n, ps, b, hf⟩] at h
      exact List.mem_flatMap.1 h

theorem mentions_of_free {t : Task} {name : String} (h : name ∈ t.freeNames) :
    t.Mentions name := by
  induction t using Task.induction_inner with
  | step t ih =>
  obtain rfl | ⟨u, hu, hname⟩ := Task.freeNames_inner h
  · exact .read
  · exact .inside hu (ih u hu hname)

/-! ### Renaming by parts -/

section

variable (x y : String)

theorem renameInExprs_eq (es : List Expr) : renameInExprs x y es = es.map (Expr.rename x y) := by
  induction es with
  | nil => rfl
  | cons e es ih => rw [renameInExprs, ih]; rfl

theorem renameInElements_eq (es : List (Option Expr)) :
    renameInElements x y es = es.map (Option.map (Expr.rename x y)) := by
  induction es with
  | nil => rfl
  | cons e es ih => cases e <;> rw [renameInElements, ih] <;> rfl

theorem renameInProperties_eq (ps : List Property) :
    renameInProperties x y ps = ps.map (Property.rename x y) := by
  induction ps with
  | nil => rfl
  | cons p ps ih => rw [renameInProperties, ih]; rfl

theorem renameInPatterns_eq (ps : List Pattern) :
    renameInPatterns x y ps = ps.map (Pattern.rename x y) := by
  induction ps with
  | nil => rfl
  | cons p ps ih => rw [renameInPatterns, ih]; rfl

theorem renameInPatternProperties_eq (ps : List PatternProperty) :
    renameInPatternProperties x y ps = ps.map (PatternProperty.rename x y) := by
  induction ps with
  | nil => rfl
  | cons p ps ih => rw [renameInPatternProperties, ih]; rfl

theorem renameInPatternElements_eq (ps : List (Option Pattern)) :
    renameInPatternElements x y ps = ps.map (Option.map (Pattern.rename x y)) := by
  induction ps with
  | nil => rfl
  | cons p ps ih => cases p <;> rw [renameInPatternElements, ih] <;> rfl

theorem Key.rename_parts (k : Key) : (k.rename x y).parts = k.parts.map (Task.rename x y) := by
  cases k <;> rfl

theorem Property.rename_parts (p : Property) :
    (p.rename x y).parts = p.parts.map (Task.rename x y) := by
  cases p <;> rfl

theorem PatternProperty.rename_parts (p : PatternProperty) :
    (p.rename x y).parts = p.parts.map (Task.rename x y) := by
  cases p <;> rfl

theorem Pattern.rename_parts (p : Pattern) :
    (p.rename x y).parts = p.parts.map (Task.rename x y) := by
  cases p with
  | identifier => rfl
  | object properties =>
    simp [Pattern.rename, Pattern.parts, renameInPatternProperties_eq, List.flatMap_map,
      List.map_flatMap, PatternProperty.rename_parts]
  | array elements =>
    simp [Pattern.rename, Pattern.parts, renameInPatternElements_eq, List.filterMap_map,
      List.map_filterMap, Function.comp_def, Task.rename]
  | rest => rfl
  | withDefault => rfl

theorem PatternProperty.rebind_parts (p : PatternProperty) :
    (p.rebind x y).parts = p.parts.map (Task.rebind x y) := by
  cases p with
  | keyed key value => cases key <;> rfl
  | rest target => rfl

theorem rebindInProperties_eq (ps : List PatternProperty) :
    rebindInProperties x y ps = ps.map (PatternProperty.rebind x y) := by
  induction ps with
  | nil => rfl
  | cons p ps ih => rw [rebindInProperties, ih]; rfl

theorem rebindInElements_eq (ps : List (Option Pattern)) :
    rebindInElements x y ps = ps.map (Option.map (Pattern.rebind x y)) := by
  induction ps with
  | nil => rfl
  | cons p ps ih => cases p <;> rw [rebindInElements, ih] <;> rfl

theorem Pattern.rebind_parts (p : Pattern) :
    (p.rebind x y).parts = p.parts.map (Task.rebind x y) := by
  cases p with
  | identifier => rfl
  | object properties =>
    simp [Pattern.rebind, Pattern.parts, rebindInProperties_eq, List.flatMap_map,
      List.map_flatMap, PatternProperty.rebind_parts]
  | array elements =>
    simp [Pattern.rebind, Pattern.parts, rebindInElements_eq, List.filterMap_map,
      List.map_filterMap, Function.comp_def, Task.rebind]
  | rest => rfl
  | withDefault => rfl

/-- The parts of a renamed expression are those of the expression, renamed, unless it is a
function that binds the name. -/
theorem Expr.rename_inner {e : Expr}
    (h : ∀ s a n ps b, e = .function s a n ps (.expression b) →
      x ∉ ps.flatMap Pattern.boundNames) :
    (e.rename x y).inner = e.inner.map (Task.rename x y) := by
  match e with
  | .function s a n ps (.expression b) =>
    rw [Expr.rename, if_neg (h s a n ps b rfl)]
    simp [Expr.inner, renameInPatterns_eq, Task.rename, Function.comp_def]
  | .function _ _ _ _ .block => rfl
  | .identifier _ | .literal _ | .binary .. | .logical .. | .unary .. | .conditional ..
  | .member .. | .call .. | .array _ | .object _ | .sequence _ | .assign .. | .update ..
  | .spread _ | .new .. | .template .. | .tagged .. | .this | .super | .newTarget =>
    simp [Expr.rename, Expr.inner, Expr.parts, Task.rename, renameInExprs_eq,
      renameInElements_eq, renameInProperties_eq, List.filterMap_map, List.map_filterMap,
      List.flatMap_map, List.map_flatMap, Property.rename_parts, Function.comp_def]

end

/-! ### Free names after a renaming -/

section

variable {x y : String}

/-- A renaming changes nothing that a task binds. -/
theorem Task.boundNames_rename (t : Task) : (t.rename x y).boundNames = t.boundNames := by
  induction t using Task.induction_inner with
  | step t ih =>
  cases t with
  | expr | key | leave => rfl
  | pattern p =>
    by_cases hid : ∃ n, p = .identifier n
    · obtain ⟨n, rfl⟩ := hid
      rfl
    · have hid : ∀ n, p ≠ .identifier n := fun n hn => hid ⟨n, hn⟩
      have hid' : ∀ n, p.rename x y ≠ .identifier n := by
        intro n hn
        cases p with
        | identifier m => exact hid m rfl
        | _ => exact nomatch hn
      show (p.rename x y).boundNames = p.boundNames
      rw [Pattern.boundNames_eq hid, Pattern.boundNames_eq hid', Pattern.rename_parts,
        List.flatMap_map]
      exact List.flatMap_congr ih

theorem boundNames_renameInPatterns (ps : List Pattern) :
    (renameInPatterns x y ps).flatMap Pattern.boundNames = ps.flatMap Pattern.boundNames := by
  rw [renameInPatterns_eq, List.flatMap_map]
  exact List.flatMap_congr fun p _ => Task.boundNames_rename (.pattern p)

/-- A renaming leaves every other expression one that is neither a name nor a function. -/
theorem Expr.rename_ne_identifier {e : Expr} (hid : ∀ n, e ≠ .identifier n)
    (hfun : ∀ s a n ps b, e ≠ .function s a n ps (.expression b)) (n : String) :
    e.rename x y ≠ .identifier n := by
  intro hn
  match e with
  | .identifier m => exact hid m rfl
  | .function _ _ _ _ (.expression _) => exact hfun _ _ _ _ _ rfl

theorem Expr.rename_ne_function {e : Expr}
    (hfun : ∀ s a n ps b, e ≠ .function s a n ps (.expression b)) (s : FunctionStyle)
    (a : Bool) (n : Option String) (ps : List Pattern) (b : Expr) :
    e.rename x y ≠ .function s a n ps (.expression b) := by
  intro h
  match e with
  | .function _ _ _ _ (.expression _) => exact hfun _ _ _ _ _ rfl

/-- If a renaming frees one name for another in each of some tasks, it does so in all of
them. -/
theorem mem_flatMap_rename {ts : List Task} {name : String}
    (h : ∀ u ∈ ts, (name ∈ (u.rename x y).freeNames ↔
      name ∈ u.freeNames ∧ name ≠ x ∨ name = y ∧ x ∈ u.freeNames)) :
    name ∈ (ts.map (Task.rename x y)).flatMap Task.freeNames ↔
      name ∈ ts.flatMap Task.freeNames ∧ name ≠ x ∨
        name = y ∧ x ∈ ts.flatMap Task.freeNames := by
  simp only [List.flatMap_map, List.mem_flatMap]
  constructor
  · rintro ⟨u, hu, hname⟩
    rcases (h u hu).1 hname with ⟨hfree, hne⟩ | ⟨heq, hfree⟩
    · exact .inl ⟨⟨u, hu, hfree⟩, hne⟩
    · exact .inr ⟨heq, u, hu, hfree⟩
  · rintro (⟨⟨u, hu, hfree⟩, hne⟩ | ⟨heq, u, hu, hfree⟩)
    · exact ⟨u, hu, (h u hu).2 (.inl ⟨hfree, hne⟩)⟩
    · exact ⟨u, hu, (h u hu).2 (.inr ⟨heq, hfree⟩)⟩

/-- What is free in a renamed function, if it is known of its parts. -/
theorem mem_freeNames_rename_function {s : FunctionStyle} {a : Bool} {n : Option String}
    {ps : List Pattern} {b : Expr} {name : String}
    (hy : ¬(Task.expr (.function s a n ps (.expression b))).Mentions y)
    (parts : name ∈ ((Expr.function s a n ps (.expression b)).inner.map
        (Task.rename x y)).flatMap Task.freeNames ↔
      name ∈ (Expr.function s a n ps (.expression b)).inner.flatMap Task.freeNames ∧ name ≠ x ∨
        name = y ∧ x ∈ (Expr.function s a n ps (.expression b)).inner.flatMap Task.freeNames) :
    name ∈ ((Expr.function s a n ps (.expression b)).rename x y).freeNames ↔
      name ∈ (Expr.function s a n ps (.expression b)).freeNames ∧ name ≠ x ∨
        name = y ∧ x ∈ (Expr.function s a n ps (.expression b)).freeNames := by
  by_cases hx : x ∈ ps.flatMap Pattern.boundNames
  · -- the function binds the name, so it is not free there
    have hbound : x ∉ (Expr.function s a n ps (.expression b)).freeNames :=
      fun hmem => (mem_freeNames_function.1 hmem).2 hx
    rw [Expr.rename, if_pos hx]
    refine ⟨fun h => .inl ⟨h, fun heq => hbound (heq ▸ h)⟩, fun h => ?_⟩
    exact h.elim And.left fun h => absurd h.2 hbound
  · -- neither name is bound by the function, so what it binds leaves both free
    have hbound : y ∉ ps.flatMap Pattern.boundNames := by
      intro hmem
      obtain ⟨p, hp, hyp⟩ := List.mem_flatMap.1 hmem
      have hinner : Task.pattern p ∈ (Task.expr (.function s a n ps (.expression b))).inner :=
        List.mem_append_left _ (List.mem_map_of_mem hp)
      exact hy (.inside hinner (mentions_of_bound (t := .pattern p) hyp))
    rw [← Expr.rename_inner x y fun _ _ _ _ _ h => by cases h; exact hx] at parts
    rw [Expr.rename, if_neg hx] at parts ⊢
    simp only [mem_freeNames_function, parts, boundNames_renameInPatterns]
    constructor
    · rintro ⟨⟨hname, hne⟩ | ⟨rfl, hname⟩, hnot⟩
      · exact .inl ⟨⟨hname, hnot⟩, hne⟩
      · exact .inr ⟨rfl, hname, hx⟩
    · rintro (⟨⟨hname, hnot⟩, hne⟩ | ⟨rfl, hname, -⟩)
      · exact ⟨.inl ⟨hname, hne⟩, hnot⟩
      · exact ⟨.inr ⟨rfl, hname⟩, hbound⟩

/-- After a renaming by a name that is not mentioned, that name is free if the old one
was, and the old one is not. -/
theorem mem_freeNames_rename {t : Task} (hy : ¬t.Mentions y) (name : String) :
    name ∈ (t.rename x y).freeNames ↔
      name ∈ t.freeNames ∧ name ≠ x ∨ name = y ∧ x ∈ t.freeNames := by
  induction t using Task.induction_inner with
  | step t ih =>
  have parts := mem_flatMap_rename fun u hu => ih u hu fun h => hy (.inside hu h)
  cases t with
  | leave => simp [Task.rename, Task.freeNames]
  | key k =>
    rw [Task.rename, Task.freeNames, Task.freeNames, Key.freeNames_eq, Key.freeNames_eq,
      Key.rename_parts]
    exact parts
  | pattern p =>
    rw [Task.rename, Task.freeNames, Task.freeNames, Pattern.freeNames_eq, Pattern.freeNames_eq,
      Pattern.rename_parts]
    exact parts
  | expr e =>
    rw [Task.rename, Task.freeNames, Task.freeNames]
    rw [Task.inner] at parts
    by_cases hid : ∃ n, e = .identifier n
    · obtain ⟨n, rfl⟩ := hid
      by_cases hn : n = x
      · subst hn
        simp [Expr.rename, Expr.freeNames]
      · have hx : x ≠ n := fun h => hn h.symm
        simp only [Expr.rename, if_neg hn, Expr.freeNames, List.mem_singleton, hx, and_false,
          or_false]
        exact ⟨fun h => ⟨h, h ▸ hn⟩, And.left⟩
    have hid : ∀ n, e ≠ .identifier n := fun n hn => hid ⟨n, hn⟩
    by_cases hfun : ∃ s a n ps b, e = .function s a n ps (.expression b)
    · obtain ⟨s, a, n, ps, b, rfl⟩ := hfun
      exact mem_freeNames_rename_function hy parts
    · have hfun : ∀ s a n ps b, e ≠ .function s a n ps (.expression b) :=
        fun s a n ps b h => hfun ⟨s, a, n, ps, b, h⟩
      have hid' := Expr.rename_ne_identifier (x := x) (y := y) hid hfun
      have hfun' := Expr.rename_ne_function (x := x) (y := y) hfun
      rw [Expr.freeNames_eq hid hfun, Expr.freeNames_eq hid' hfun',
        Expr.rename_inner x y fun s a n ps b h => absurd h (hfun s a n ps b)]
      exact parts

end

/-! ### Renaming what a function binds -/

section

variable {x y : String}

/-- What a pattern binds is not what it reads. -/
theorem Task.freeNames_rebind (t : Task) : (t.rebind x y).freeNames = t.freeNames := by
  induction t using Task.induction_inner with
  | step t ih =>
  cases t with
  | expr | key | leave => rfl
  | pattern p =>
    rw [Task.rebind, Task.freeNames, Task.freeNames, Pattern.freeNames_eq, Pattern.freeNames_eq,
      Pattern.rebind_parts, List.flatMap_map]
    exact List.flatMap_congr ih

theorem Task.boundNames_rebind (t : Task) :
    (t.rebind x y).boundNames = t.boundNames.map fun name => if name = x then y else name := by
  induction t using Task.induction_inner with
  | step t ih =>
  cases t with
  | expr | key | leave => rfl
  | pattern p =>
    by_cases hid : ∃ n, p = .identifier n
    · obtain ⟨n, rfl⟩ := hid
      rfl
    · have hid : ∀ n, p ≠ .identifier n := fun n hn => hid ⟨n, hn⟩
      have hid' : ∀ n, p.rebind x y ≠ .identifier n := by
        intro n hn
        cases p with
        | identifier m => exact hid m rfl
        | _ => exact nomatch hn
      show (p.rebind x y).boundNames = p.boundNames.map _
      rw [Pattern.boundNames_eq hid, Pattern.boundNames_eq hid', Pattern.rebind_parts,
        List.flatMap_map, List.map_flatMap]
      exact List.flatMap_congr ih

/-- A function has the same free names with another name for a parameter. -/
theorem mem_freeNames_renameParameter {style : FunctionStyle} {isAsync : Bool}
    {name : Option String} {params : List Pattern} {body : Expr}
    (hx : x ∈ params.flatMap Pattern.boundNames)
    (hy : ¬(Task.expr (.function style isAsync name params (.expression body))).Mentions y)
    (free : String) :
    free ∈ ((Expr.function style isAsync name params (.expression body)).renameParameter
        x y).freeNames ↔
      free ∈ (Expr.function style isAsync name params (.expression body)).freeNames := by
  have hread : (Expr.function style isAsync name (params.map fun p => (p.rename x y).rebind x y)
      (.expression (body.rename x y))).inner.flatMap Task.freeNames =
        ((Expr.function style isAsync name params (.expression body)).inner.map
          (Task.rename x y)).flatMap Task.freeNames := by
    simp only [Expr.inner, List.map_append, List.flatMap_append, List.map_map, List.flatMap_map]
    refine congrArg₂ _ (List.flatMap_congr fun p _ => ?_) rfl
    exact Task.freeNames_rebind (.pattern (p.rename x y))
  have hbound : (params.map fun p => (p.rename x y).rebind x y).flatMap Pattern.boundNames =
      (params.flatMap Pattern.boundNames).map fun n => if n = x then y else n := by
    rw [List.flatMap_map, List.map_flatMap]
    refine List.flatMap_congr fun p _ => ?_
    refine (Task.boundNames_rebind (.pattern (p.rename x y))).trans ?_
    exact congrArg _ (Task.boundNames_rename (.pattern p))
  have hparts := mem_flatMap_rename (x := x) (y := y) fun u hu =>
    mem_freeNames_rename (fun h => hy (.inside hu h)) free
  rw [Task.inner] at hparts
  rw [Expr.renameParameter, mem_freeNames_function, mem_freeNames_function, hread, hbound, hparts,
    List.mem_map]
  constructor
  · rintro ⟨⟨hfree, hne⟩ | ⟨rfl, -⟩, hnot⟩
    · exact ⟨hfree, fun hmem => hnot ⟨free, hmem, if_neg hne⟩⟩
    · exact absurd ⟨x, hx, if_pos rfl⟩ hnot
  · rintro ⟨hfree, hnot⟩
    refine ⟨.inl ⟨hfree, fun heq => hnot (heq ▸ hx)⟩, ?_⟩
    rintro ⟨n, hn, rfl⟩
    split at hfree
    · -- the new name would be read by a part of the function
      obtain ⟨u, hu, hyu⟩ := List.mem_flatMap.1 hfree
      exact hy (.inside hu (mentions_of_free hyu))
    · next hne => exact hnot (by rwa [if_neg hne])

end

/-! ### Expressions within trees -/

/-- `Replaced old new t u` says that `t` has the expression `old` somewhere, and that `u` is
`t` with `new` there. -/
inductive Replaced (old new : Expr) : Task → Task → Prop where
  | here : Replaced old new (.expr old) (.expr new)
  | binaryLeft {op : BinaryOperator} {e e' right : Expr}
      (h : Replaced old new (.expr e) (.expr e')) :
      Replaced old new (.expr (.binary op e right)) (.expr (.binary op e' right))
  | binaryRight {op : BinaryOperator} {left e e' : Expr}
      (h : Replaced old new (.expr e) (.expr e')) :
      Replaced old new (.expr (.binary op left e)) (.expr (.binary op left e'))
  | logicalLeft {op : LogicalOperator} {e e' right : Expr}
      (h : Replaced old new (.expr e) (.expr e')) :
      Replaced old new (.expr (.logical op e right)) (.expr (.logical op e' right))
  | logicalRight {op : LogicalOperator} {left e e' : Expr}
      (h : Replaced old new (.expr e) (.expr e')) :
      Replaced old new (.expr (.logical op left e)) (.expr (.logical op left e'))
  | unary {op : UnaryOperator} {e e' : Expr} (h : Replaced old new (.expr e) (.expr e')) :
      Replaced old new (.expr (.unary op e)) (.expr (.unary op e'))
  | test {e e' consequent alternate : Expr} (h : Replaced old new (.expr e) (.expr e')) :
      Replaced old new (.expr (.conditional e consequent alternate))
        (.expr (.conditional e' consequent alternate))
  | consequent {test e e' alternate : Expr} (h : Replaced old new (.expr e) (.expr e')) :
      Replaced old new (.expr (.conditional test e alternate))
        (.expr (.conditional test e' alternate))
  | alternate {test consequent e e' : Expr} (h : Replaced old new (.expr e) (.expr e')) :
      Replaced old new (.expr (.conditional test consequent e))
        (.expr (.conditional test consequent e'))
  | memberObject {e e' : Expr} {property : Key} {optional : Bool}
      (h : Replaced old new (.expr e) (.expr e')) :
      Replaced old new (.expr (.member e property optional)) (.expr (.member e' property optional))
  | memberKey {base : Expr} {k k' : Key} {optional : Bool}
      (h : Replaced old new (.key k) (.key k')) :
      Replaced old new (.expr (.member base k optional)) (.expr (.member base k' optional))
  | callee {e e' : Expr} {arguments : List Expr} {optional : Bool}
      (h : Replaced old new (.expr e) (.expr e')) :
      Replaced old new (.expr (.call e arguments optional)) (.expr (.call e' arguments optional))
  | argument {callee e e' : Expr} {before after : List Expr} {optional : Bool}
      (h : Replaced old new (.expr e) (.expr e')) :
      Replaced old new (.expr (.call callee (before ++ e :: after) optional))
        (.expr (.call callee (before ++ e' :: after) optional))
  | element {e e' : Expr} {before after : List (Option Expr)}
      (h : Replaced old new (.expr e) (.expr e')) :
      Replaced old new (.expr (.array (before ++ some e :: after)))
        (.expr (.array (before ++ some e' :: after)))
  | propertyKey {k k' : Key} {value : Expr} {kind : PropertyKind} {shorthand : Bool}
      {before after : List Property} (h : Replaced old new (.key k) (.key k')) :
      Replaced old new (.expr (.object (before ++ .keyed k value kind shorthand :: after)))
        (.expr (.object (before ++ .keyed k' value kind shorthand :: after)))
  | propertyValue {key : Key} {e e' : Expr} {kind : PropertyKind} {shorthand : Bool}
      {before after : List Property} (h : Replaced old new (.expr e) (.expr e')) :
      Replaced old new (.expr (.object (before ++ .keyed key e kind shorthand :: after)))
        (.expr (.object (before ++ .keyed key e' kind shorthand :: after)))
  | propertySpread {e e' : Expr} {before after : List Property}
      (h : Replaced old new (.expr e) (.expr e')) :
      Replaced old new (.expr (.object (before ++ .spread e :: after)))
        (.expr (.object (before ++ .spread e' :: after)))
  | param {style : FunctionStyle} {isAsync : Bool} {name : Option String} {p p' : Pattern}
      {before after : List Pattern} {body : Body}
      (h : Replaced old new (.pattern p) (.pattern p')) :
      Replaced old new (.expr (.function style isAsync name (before ++ p :: after) body))
        (.expr (.function style isAsync name (before ++ p' :: after) body))
  | body {style : FunctionStyle} {isAsync : Bool} {name : Option String} {params : List Pattern}
      {e e' : Expr} (h : Replaced old new (.expr e) (.expr e')) :
      Replaced old new (.expr (.function style isAsync name params (.expression e)))
        (.expr (.function style isAsync name params (.expression e')))
  | item {e e' : Expr} {before after : List Expr} (h : Replaced old new (.expr e) (.expr e')) :
      Replaced old new (.expr (.sequence (before ++ e :: after)))
        (.expr (.sequence (before ++ e' :: after)))
  | assignTarget {op : AssignOperator} {e e' value : Expr}
      (h : Replaced old new (.expr e) (.expr e')) :
      Replaced old new (.expr (.assign op e value)) (.expr (.assign op e' value))
  | assignValue {op : AssignOperator} {target e e' : Expr}
      (h : Replaced old new (.expr e) (.expr e')) :
      Replaced old new (.expr (.assign op target e)) (.expr (.assign op target e'))
  | update {op : UpdateOperator} {place : UpdatePlace} {e e' : Expr}
      (h : Replaced old new (.expr e) (.expr e')) :
      Replaced old new (.expr (.update op place e)) (.expr (.update op place e'))
  | spread {e e' : Expr} (h : Replaced old new (.expr e) (.expr e')) :
      Replaced old new (.expr (.spread e)) (.expr (.spread e'))
  | newCallee {e e' : Expr} {arguments : List Expr} (h : Replaced old new (.expr e) (.expr e')) :
      Replaced old new (.expr (.new e arguments)) (.expr (.new e' arguments))
  | newArgument {callee e e' : Expr} {before after : List Expr}
      (h : Replaced old new (.expr e) (.expr e')) :
      Replaced old new (.expr (.new callee (before ++ e :: after)))
        (.expr (.new callee (before ++ e' :: after)))
  | substitution {quasis : List String} {e e' : Expr} {before after : List Expr}
      (h : Replaced old new (.expr e) (.expr e')) :
      Replaced old new (.expr (.template quasis (before ++ e :: after)))
        (.expr (.template quasis (before ++ e' :: after)))
  | tag {e e' quasi : Expr} (h : Replaced old new (.expr e) (.expr e')) :
      Replaced old new (.expr (.tagged e quasi)) (.expr (.tagged e' quasi))
  | quasi {tag e e' : Expr} (h : Replaced old new (.expr e) (.expr e')) :
      Replaced old new (.expr (.tagged tag e)) (.expr (.tagged tag e'))
  | computed {e e' : Expr} (h : Replaced old new (.expr e) (.expr e')) :
      Replaced old new (.key (.computed e)) (.key (.computed e'))
  | patternKey {k k' : Key} {value : Pattern} {before after : List PatternProperty}
      (h : Replaced old new (.key k) (.key k')) :
      Replaced old new (.pattern (.object (before ++ .keyed k value :: after)))
        (.pattern (.object (before ++ .keyed k' value :: after)))
  | patternValue {key : Key} {p p' : Pattern} {before after : List PatternProperty}
      (h : Replaced old new (.pattern p) (.pattern p')) :
      Replaced old new (.pattern (.object (before ++ .keyed key p :: after)))
        (.pattern (.object (before ++ .keyed key p' :: after)))
  | patternRest {p p' : Pattern} {before after : List PatternProperty}
      (h : Replaced old new (.pattern p) (.pattern p')) :
      Replaced old new (.pattern (.object (before ++ .rest p :: after)))
        (.pattern (.object (before ++ .rest p' :: after)))
  | patternElement {p p' : Pattern} {before after : List (Option Pattern)}
      (h : Replaced old new (.pattern p) (.pattern p')) :
      Replaced old new (.pattern (.array (before ++ some p :: after)))
        (.pattern (.array (before ++ some p' :: after)))
  | rest {p p' : Pattern} (h : Replaced old new (.pattern p) (.pattern p')) :
      Replaced old new (.pattern (.rest p)) (.pattern (.rest p'))
  | defaultTarget {p p' : Pattern} {value : Expr}
      (h : Replaced old new (.pattern p) (.pattern p')) :
      Replaced old new (.pattern (.withDefault p value)) (.pattern (.withDefault p' value))
  | defaultValue {target : Pattern} {e e' : Expr} (h : Replaced old new (.expr e) (.expr e')) :
      Replaced old new (.pattern (.withDefault target e)) (.pattern (.withDefault target e'))

namespace Replaced

variable {old new : Expr} {t u : Task}

/-- A pattern binds the same whatever expressions are in it. -/
theorem boundNames (h : Replaced old new t u) : u.boundNames = t.boundNames := by
  induction h with
  | patternKey _ _ | patternValue _ ih | patternRest _ ih | patternElement _ ih =>
    simp_all [Task.boundNames, Pattern.boundNames, boundInProperties_eq, boundInElements_eq,
      PatternProperty.parts]
  | rest _ ih | defaultTarget _ ih => exact ih
  | _ => rfl

/-- If two expressions have the same free names, then so have the trees with the one and
the other in some place. -/
theorem freeNames (h : Replaced old new t u)
    (hfree : ∀ name, name ∈ new.freeNames ↔ name ∈ old.freeNames) (name : String) :
    name ∈ u.freeNames ↔ name ∈ t.freeNames := by
  induction h with
  | here => exact hfree name
  | @param _ _ _ _ _ _ _ body hp ih =>
    have hbound := hp.boundNames
    cases body with
    | block => rfl
    | expression b => simp_all [Task.freeNames, Task.boundNames, Expr.freeNames, freeInPatterns_eq]
  | _ =>
    simp_all [Task.freeNames, Expr.freeNames, Key.freeNames, Pattern.freeNames, freeInExprs_eq,
      freeInElements_eq, freeInProperties_eq, freeInPatternProperties_eq,
      freeInPatternElements_eq, Property.parts, PatternProperty.parts]

end Replaced

/-- If a parameter of a function in a tree gets a name that the function does not mention,
in the patterns that bind it and wherever the function reads it, then the tree keeps its
free variables. -/
theorem freeVariables_renameParameter {style : FunctionStyle} {isAsync : Bool}
    {name : Option String} {params : List Pattern} {body tree tree' : Expr} {x y : String}
    (hx : x ∈ params.flatMap Pattern.boundNames)
    (hy : ¬(Task.expr (.function style isAsync name params (.expression body))).Mentions y)
    (htree : Replaced (.function style isAsync name params (.expression body))
      ((Expr.function style isAsync name params (.expression body)).renameParameter x y)
      (.expr tree) (.expr tree')) (options : Options) :
    freeVariables options tree' = freeVariables options tree := by
  rw [Collector.freeVariables_eq, Collector.freeVariables_eq]
  refine NameSet.ext fun free => ?_
  rw [Collector.mem_freeSet, Collector.mem_freeSet]
  refine and_congr_right fun _ => ?_
  exact htree.freeNames (mem_freeNames_renameParameter hx hy) free

/-- In `f(({ k: x = z }) => [x, x => x], y)` the outer parameter may be called `y`. -/
theorem freeVariables_renameParameter_shadowed :
    "x" ∈ [Pattern.object
      [.keyed (.fixed "k") (.withDefault (.identifier "x") (.identifier "z"))]].flatMap
        Pattern.boundNames ∧
    ¬(Task.expr (.function .arrow false none
      [.object [.keyed (.fixed "k") (.withDefault (.identifier "x") (.identifier "z"))]]
      (.expression (.array [some (.identifier "x"), some (.function .arrow false none
        [.identifier "x"] (.expression (.identifier "x")))])))).Mentions "y" ∧
    freeVariables {} (.call (.identifier "f")
      [.function .arrow false none
        [.object [.keyed (.fixed "k") (.withDefault (.identifier "y") (.identifier "z"))]]
        (.expression (.array [some (.identifier "y"), some (.function .arrow false none
          [.identifier "x"] (.expression (.identifier "x")))])),
       .identifier "y"] false) =
    freeVariables {} (.call (.identifier "f")
      [.function .arrow false none
        [.object [.keyed (.fixed "k") (.withDefault (.identifier "x") (.identifier "z"))]]
        (.expression (.array [some (.identifier "x"), some (.function .arrow false none
          [.identifier "x"] (.expression (.identifier "x")))])),
       .identifier "y"] false) := by
  have hx : "x" ∈ [Pattern.object
      [.keyed (.fixed "k") (.withDefault (.identifier "x") (.identifier "z"))]].flatMap
        Pattern.boundNames := by decide
  have hy : ¬(Task.expr (.function .arrow false none
      [.object [.keyed (.fixed "k") (.withDefault (.identifier "x") (.identifier "z"))]]
      (.expression (.array [some (.identifier "x"), some (.function .arrow false none
        [.identifier "x"] (.expression (.identifier "x")))])))).Mentions "y" := by
    have hread : ∀ n, n ≠ "y" → ¬(Task.expr (.identifier n)).Mentions "y" :=
      fun n hn => Task.not_mentions (by simpa using hn) nofun nofun
    have hbound : ∀ n, n ≠ "y" → ¬(Task.pattern (.identifier n)).Mentions "y" :=
      fun n hn => Task.not_mentions nofun (by simpa using hn) nofun
    have hinner : ¬(Task.expr (.function .arrow false none [.identifier "x"]
        (.expression (.identifier "x")))).Mentions "y" :=
      Task.not_mentions nofun nofun <| List.forall_mem_cons.2
        ⟨hbound "x" (by decide), List.forall_mem_singleton.2 (hread "x" (by decide))⟩
    have hvalue : ¬(Task.pattern (.withDefault (.identifier "x") (.identifier "z"))).Mentions "y" :=
      Task.not_mentions nofun nofun <| List.forall_mem_cons.2
        ⟨hbound "x" (by decide), List.forall_mem_singleton.2 (hread "z" (by decide))⟩
    refine Task.not_mentions nofun nofun <| List.forall_mem_cons.2
      ⟨?_, List.forall_mem_singleton.2 ?_⟩
    · exact Task.not_mentions nofun nofun <| List.forall_mem_cons.2
        ⟨Task.not_mentions nofun nofun nofun, List.forall_mem_singleton.2 hvalue⟩
    · exact Task.not_mentions nofun nofun <| List.forall_mem_cons.2
        ⟨hread "x" (by decide), List.forall_mem_singleton.2 hinner⟩
  have htree := freeVariables_renameParameter hx hy
    (@Replaced.argument _ _ (.identifier "f") _ _ [] [.identifier "y"] false .here) {}
  exact ⟨hx, hy, htree⟩

end TemplateVars
