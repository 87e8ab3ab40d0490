/-
What a collector finds are the free names of the trees it visits.

`Expr.freeNames` is the recursion: a name is free in itself, a node has the free
names of its parts, and a function those of its parameters and its body less the
ones that its parameters bind.

* `reports_task` — a task meets a reference to a name that no scope binds exactly
  when the name is free in the task and the scopes around it do not bind it;
* `visit_collects` — visits from outside all scopes end outside all scopes and
  add the free names of the visited trees that are not built in.

Design notes: the written name of a property is no part of a tree that is read,
and neither is a function body that is a block.
-/
import TemplateVars.Analysis.Collector
import TemplateVars.Proofs.Analysis.Order

namespace TemplateVars

mutual

/-- The names that an expression reads and does not bind. -/
def Expr.freeNames : Expr → List String
  | .identifier name => [name]
  | .literal _ => []
  | .binary _ left right => left.freeNames ++ right.freeNames
  | .logical _ left right => left.freeNames ++ right.freeNames
  | .unary _ argument => argument.freeNames
  | .conditional test consequent alternate =>
    test.freeNames ++ consequent.freeNames ++ alternate.freeNames
  | .member base property _ => base.freeNames ++ property.freeNames
  | .call callee arguments _ => callee.freeNames ++ freeInExprs arguments
  | .array elements => freeInElements elements
  | .object properties => freeInProperties properties
  | .function _ _ _ params (.expression body) =>
    (freeInPatterns params ++ body.freeNames).filter
      fun name => name ∉ params.flatMap Pattern.boundNames
  | .function _ _ _ _ .block => []
  | .sequence items => freeInExprs items
  | .assign _ target value => target.freeNames ++ value.freeNames
  | .update _ _ argument => argument.freeNames
  | .spread argument => argument.freeNames
  | .new callee arguments => callee.freeNames ++ freeInExprs arguments
  | .template _ substitutions => freeInExprs substitutions
  | .tagged tag quasi => tag.freeNames ++ quasi.freeNames
  | .this => []
  | .super => []
  | .newTarget => []

def Key.freeNames : Key → List String
  | .fixed _ => []
  | .computed expression => expression.freeNames

def Property.freeNames : Property → List String
  | .keyed key value _ _ => key.freeNames ++ value.freeNames
  | .spread argument => argument.freeNames

/-- The names that the defaults and computed keys of a pattern read. -/
def Pattern.freeNames : Pattern → List String
  | .identifier _ => []
  | .object properties => freeInPatternProperties properties
  | .array elements => freeInPatternElements elements
  | .rest target => target.freeNames
  | .withDefault target value => target.freeNames ++ value.freeNames

def PatternProperty.freeNames : PatternProperty → List String
  | .keyed key value => key.freeNames ++ value.freeNames
  | .rest target => target.freeNames

def freeInExprs : List Expr → List String
  | [] => []
  | e :: rest => e.freeNames ++ freeInExprs rest

def freeInElements : List (Option Expr) → List String
  | [] => []
  | none :: rest => freeInElements rest
  | some e :: rest => e.freeNames ++ freeInElements rest

def freeInProperties : List Property → List String
  | [] => []
  | p :: rest => p.freeNames ++ freeInProperties rest

def freeInPatterns : List Pattern → List String
  | [] => []
  | p :: rest => p.freeNames ++ freeInPatterns rest

def freeInPatternProperties : List PatternProperty → List String
  | [] => []
  | p :: rest => p.freeNames ++ freeInPatternProperties rest

def freeInPatternElements : List (Option Pattern) → List String
  | [] => []
  | none :: rest => freeInPatternElements rest
  | some p :: rest => p.freeNames ++ freeInPatternElements rest

end

/-- The free names of a tree that are not built in. -/
def Expr.freeSet (options : Options) (e : Expr) : NameSet :=
  .ofList (e.freeNames.filter fun name => !options.isBuiltin name)

/-- The free names of a task's tree. -/
def Task.freeNames : Task → List String
  | .expr e => e.freeNames
  | .pattern p => p.freeNames
  | .key k => k.freeNames
  | .leave => []

/-! ### Free names by parts -/

theorem freeInExprs_eq (es : List Expr) :
    freeInExprs es = (es.map Task.expr).flatMap Task.freeNames := by
  induction es with
  | nil => rfl
  | cons e es ih => rw [freeInExprs, ih]; rfl

theorem freeInElements_eq (es : List (Option Expr)) :
    freeInElements es = (es.filterMap fun e => e.map Task.expr).flatMap Task.freeNames := by
  induction es with
  | nil => rfl
  | cons e es ih => cases e <;> rw [freeInElements, ih] <;> rfl

theorem freeInPatterns_eq (ps : List Pattern) :
    freeInPatterns ps = (ps.map Task.pattern).flatMap Task.freeNames := by
  induction ps with
  | nil => rfl
  | cons p ps ih => rw [freeInPatterns, ih]; rfl

theorem freeInPatternElements_eq (ps : List (Option Pattern)) :
    freeInPatternElements ps =
      (ps.filterMap fun p => p.map Task.pattern).flatMap Task.freeNames := by
  induction ps with
  | nil => rfl
  | cons p ps ih => cases p <;> rw [freeInPatternElements, ih] <;> rfl

theorem Key.freeNames_eq (k : Key) : k.freeNames = k.parts.flatMap Task.freeNames := by
  cases k <;> simp [Key.freeNames, Key.parts, Task.freeNames]

theorem freeInProperties_eq (ps : List Property) :
    freeInProperties ps = (ps.flatMap Property.parts).flatMap Task.freeNames := by
  induction ps with
  | nil => rfl
  | cons p ps ih =>
    rw [freeInProperties, ih, List.flatMap_cons, List.flatMap_append]
    cases p <;> simp [Property.freeNames, Property.parts, Task.freeNames]

theorem freeInPatternProperties_eq (ps : List PatternProperty) :
    freeInPatternProperties ps = (ps.flatMap PatternProperty.parts).flatMap Task.freeNames := by
  induction ps with
  | nil => rfl
  | cons p ps ih =>
    rw [freeInPatternProperties, ih, List.flatMap_cons, List.flatMap_append]
    cases p <;> simp [PatternProperty.freeNames, PatternProperty.parts, Task.freeNames]

theorem Pattern.freeNames_eq (p : Pattern) :
    p.freeNames = p.parts.flatMap Task.freeNames := by
  cases p with
  | identifier => rfl
  | object properties => exact freeInPatternProperties_eq properties
  | array elements => exact freeInPatternElements_eq elements
  | rest target => simp [Pattern.freeNames, Pattern.parts, Task.freeNames]
  | withDefault target value => simp [Pattern.freeNames, Pattern.parts, Task.freeNames]

/-! ### References that no scope binds -/

/-- Whether some scope binds a name. -/
def Scopes.Binds (scopes : Scopes) (name : String) : Prop := ∃ names ∈ scopes, name ∈ names

/-- Whether events hold a reference to a name that is not bound where it
stands. -/
def Reports (events : List Event) (name : String) : Prop :=
  ∃ scopes, .reference name scopes ∈ events ∧ ¬Scopes.Binds scopes name

theorem reports_append {xs ys : List Event} {name : String} :
    Reports (xs ++ ys) name ↔ Reports xs name ∨ Reports ys name := by
  simp only [Reports, List.mem_append, or_and_right, exists_or]

theorem reports_flatMap {α : Type} {f : α → List Event} {xs : List α} {name : String} :
    Reports (xs.flatMap f) name ↔ ∃ x ∈ xs, Reports (f x) name := by
  simp only [Reports, List.mem_flatMap]
  constructor
  · rintro ⟨scopes, ⟨x, hx, hmem⟩, hfree⟩
    exact ⟨x, hx, scopes, hmem, hfree⟩
  · rintro ⟨x, hx, scopes, hmem, hfree⟩
    exact ⟨scopes, ⟨x, hx, hmem⟩, hfree⟩

theorem not_reports_header {scopes : Scopes} {e : Expr} {name : String}
    (hid : ∀ n, e ≠ .identifier n) : ¬Reports (e.enter scopes).1 name := by
  rintro ⟨inside, hmem, -⟩
  unfold Expr.enter at hmem
  split at hmem
  · next n => exact hid n rfl
  · simp at hmem
  · simp at hmem
  · split at hmem <;> simp at hmem

theorem binds_cons {names : List String} {scopes : Scopes} {name : String} :
    Scopes.Binds (names :: scopes) name ↔ name ∈ names ∨ scopes.Binds name := by
  simp [Scopes.Binds]

/-- The free names of an expression other than a name or a function that is
walked are those of its parts. -/
theorem Expr.freeNames_eq {e : Expr} (hid : ∀ n, e ≠ .identifier n)
    (hfun : ∀ s a n ps b, e ≠ .function s a n ps (.expression b)) :
    e.freeNames = e.inner.flatMap Task.freeNames := by
  match e with
  | .identifier n => exact absurd rfl (hid n)
  | .function s a n ps (.expression b) => exact absurd rfl (hfun s a n ps b)
  | .function _ _ _ _ .block => rfl
  | .literal _ | .binary .. | .logical .. | .unary .. | .conditional .. | .member .. | .call ..
  | .array _ | .object _ | .sequence _ | .assign .. | .update .. | .spread _ | .new ..
  | .template .. | .tagged .. | .this | .super | .newTarget =>
    simp [Expr.freeNames, Expr.inner, Expr.parts, Task.freeNames, freeInExprs_eq,
      freeInElements_eq, freeInProperties_eq]

/-- A name is free in a task exactly when the task meets a reference to it that
neither the task's own scopes nor the ones around it bind. -/
theorem reports_task (t : Task) (scopes : Scopes) (name : String) :
    Reports (t.events scopes) name ↔ name ∈ t.freeNames ∧ ¬scopes.Binds name := by
  -- for all scopes: the parts of a function are met in more scopes than its own
  induction t using Task.induction_inner generalizing scopes with
  | step t ih =>
  have parts : ∀ scopes : Scopes, Reports (t.inner.flatMap (Task.events scopes)) name ↔
      name ∈ t.inner.flatMap Task.freeNames ∧ ¬scopes.Binds name := by
    intro scopes
    rw [reports_flatMap, List.mem_flatMap]
    constructor
    · rintro ⟨u, hu, hname⟩
      obtain ⟨hfree, hbound⟩ := (ih u hu scopes).1 hname
      exact ⟨⟨u, hu, hfree⟩, hbound⟩
    · rintro ⟨⟨u, hu, hfree⟩, hbound⟩
      exact ⟨u, hu, (ih u hu scopes).2 ⟨hfree, hbound⟩⟩
  cases t with
  | leave => simp [Task.events, Task.freeNames, Reports]
  | key k =>
    rw [Task.events, Key.events_eq, Task.freeNames, Key.freeNames_eq]
    exact parts scopes
  | pattern p =>
    rw [Task.events, Pattern.events_eq, Task.freeNames, Pattern.freeNames_eq]
    exact parts scopes
  | expr e =>
    rw [Task.inner] at parts
    rw [Task.events, Task.freeNames]
    by_cases hid : ∃ n, e = .identifier n
    · obtain ⟨n, rfl⟩ := hid
      simp only [Expr.events, Expr.freeNames, Reports, List.mem_singleton, Event.reference.injEq]
      constructor
      · rintro ⟨_, ⟨rfl, rfl⟩, hbound⟩
        exact ⟨rfl, hbound⟩
      · rintro ⟨rfl, hbound⟩
        exact ⟨scopes, ⟨rfl, rfl⟩, hbound⟩
    · have hid : ∀ n, e ≠ .identifier n := fun n h => hid ⟨n, h⟩
      rw [Expr.events_eq, reports_append, or_iff_right (not_reports_header hid), parts]
      by_cases hfun : ∃ s a n ps b, e = .function s a n ps (.expression b)
      · -- the parts of a function are in one more scope, that of its parameters
        obtain ⟨s, a, n, ps, b, rfl⟩ := hfun
        simp only [Expr.enter, Expr.inner, binds_cons, Expr.freeNames, freeInPatterns_eq,
          List.flatMap_append, List.mem_append, List.mem_filter, List.flatMap_cons,
          List.flatMap_nil, List.append_nil, Task.freeNames, decide_not, Bool.not_eq_true',
          decide_eq_false_iff_not, not_or]
        constructor
        · rintro ⟨h, hps, hsc⟩
          exact ⟨⟨h, hps⟩, hsc⟩
        · rintro ⟨⟨h, hps⟩, hsc⟩
          exact ⟨h, hps, hsc⟩
      · have hfun : ∀ s a n ps b, e ≠ .function s a n ps (.expression b) :=
          fun s a n ps b h => hfun ⟨s, a, n, ps, b, h⟩
        rw [Expr.freeNames_eq hid hfun]
        -- no other node opens a scope
        suffices hs : (e.enter scopes).2.2 = scopes by rw [hs]
        unfold Expr.enter
        split
        · rfl
        · exact absurd rfl (hfun _ _ _ _ _)
        · rfl
        · rfl

/-! ### What a collector finds -/

namespace Collector

theorem mem_record {options : Options} {found : NameSet} {event : Event} {name : String} :
    name ∈ record options found event ↔
      name ∈ found ∨ options.isBuiltin name = false ∧ Reports [event] name := by
  have hbinds : ∀ (scopes : Scopes) (n : String),
      scopes.any (·.contains n) = true ↔ scopes.Binds n := by
    intro scopes n
    simp [Scopes.Binds]
  cases event with
  | descending parts kind => simp [record, Reports]
  | passedOver style => simp [record, Reports]
  | reference n scopes =>
    have hreports : Reports [.reference n scopes] name ↔ name = n ∧ ¬scopes.Binds n := by
      constructor
      · rintro ⟨inside, hmem, hfree⟩
        obtain ⟨rfl, rfl⟩ : name = n ∧ inside = scopes := by simpa using hmem
        exact ⟨rfl, hfree⟩
      · rintro ⟨rfl, hfree⟩
        exact ⟨scopes, List.mem_singleton_self _, hfree⟩
    rw [hreports, record]
    split
    · -- bound or built in: the reference is dropped, and it does not count
      next h =>
      rw [Bool.or_eq_true, hbinds] at h
      refine ⟨Or.inl, fun hor => hor.resolve_right ?_⟩
      rintro ⟨hbuiltin, rfl, hfree⟩
      rcases h with h | h
      · rw [h] at hbuiltin
        exact Bool.noConfusion hbuiltin
      · exact hfree h
    · next h =>
      rw [Bool.or_eq_true, hbinds, not_or, Bool.not_eq_true] at h
      rw [NameSet.mem_insert]
      constructor
      · rintro (rfl | hmem)
        · exact Or.inr ⟨h.1, rfl, h.2⟩
        · exact Or.inl hmem
      · rintro (hmem | ⟨-, rfl, -⟩)
        · exact Or.inr hmem
        · exact Or.inl rfl

theorem mem_foldl_record {options : Options} {events : List Event} {found : NameSet}
    {name : String} :
    name ∈ events.foldl (record options) found ↔
      name ∈ found ∨ options.isBuiltin name = false ∧ Reports events name := by
  induction events generalizing found with
  | nil => simp [Reports]
  | cons event events ih =>
    -- the event at the head has been recorded when the others are reached
    rw [List.foldl_cons, ih, mem_record, or_assoc, ← and_or_left, ← reports_append]
    rfl

theorem mem_freeSet {options : Options} {e : Expr} {name : String} :
    name ∈ e.freeSet options ↔ options.isBuiltin name = false ∧ name ∈ e.freeNames := by
  rw [Expr.freeSet, NameSet.mem_ofList, List.mem_filter, Bool.not_eq_true', and_comm]

/-- A visit from outside all scopes adds the free names that are not built in,
and changes nothing else. -/
theorem visit_free (options : Options) (found : NameSet) (e : Expr) :
    visit { options := options, found := found } e =
      { options := options, found := found.union (e.freeSet options) } := by
  rw [visit, walk_expr]
  refine congrArg (Collector.mk options []) (NameSet.ext fun name => ?_)
  -- outside all scopes nothing is bound, so what is reported is what is free
  rw [mem_foldl_record, NameSet.mem_union, mem_freeSet]
  refine or_congr_right (and_congr_right fun _ => ?_)
  refine (reports_task (.expr e) [] name).trans ?_
  simp [Scopes.Binds, Task.freeNames]

theorem freeVariables_eq (options : Options) (e : Expr) :
    freeVariables options e = e.freeSet options := by
  rw [freeVariables, visit_free]
  refine NameSet.ext fun name => ?_
  rw [NameSet.mem_union]
  exact or_iff_right (NameSet.not_mem_empty name)

end Collector

end TemplateVars
