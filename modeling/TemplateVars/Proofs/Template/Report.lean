/-
What the report on a list of fields says.

* `Report.Describes` — the lists and counts of a report against the fields it is about;
* `Report.Describes.sameNames` — the lists of names depend only on which names some
  field reads and which names some field provides;
* `report_describes` — the report on fields describes them, whatever their order, and a
  field that cannot be read adds its diagnostic and changes nothing else.

Design notes: a list of names in strictly ascending order is known from its members, so
the lists of two reports are compared name by name.  The scan is followed field by
field; what it has found before is a parameter of each statement about it.
-/
import TemplateVars.Template.Report

namespace TemplateVars

namespace Field

/-- Whether a field holds an expression, which is not empty. -/
def Holds (options : Options) (f : Field) (expression : String) : Prop :=
  options.isExpressionType f.type = true ∧ f.content = some expression ∧ expression ≠ ""

/-- Whether a field holds an expression that reads a name. -/
def Reads (options : Options) (f : Field) (name : String) : Prop :=
  ∃ expression found, f.Holds options expression ∧
    analyze options expression = .ok found ∧ name ∈ found

/-- Whether a field stands for a value under a name. -/
def Provides (options : Options) (f : Field) (name : String) : Prop :=
  f.isReadOnly = false ∧ options.isExpressionType f.type = false ∧
    options.isStaticType f.type = false ∧ f.name = some name

/-- What is wrong with the expression in a field, if it holds one that cannot be read. -/
def failure? (options : Options) (f : Field) : Option Diagnostic :=
  (f.expression? options).bind fun expression =>
    match analyze options expression with
    | .ok _ => none
    | .error e => some ⟨f.label, expression, e.text⟩

variable {options : Options} {f : Field}

theorem expression?_eq_some {expression : String} :
    f.expression? options = some expression ↔ f.Holds options expression := by
  unfold expression? Holds
  split
  · next htype => simp [htype, Option.filter_eq_some_iff]
  · next htype => simp [htype]

theorem reads_iff {expression : String} (h : f.expression? options = some expression)
    {name : String} :
    f.Reads options name ↔ ∃ found, analyze options expression = .ok found ∧ name ∈ found := by
  constructor
  · rintro ⟨other, found, hholds, hfound⟩
    obtain rfl : other = expression :=
      Option.some.inj ((expression?_eq_some.2 hholds).symm.trans h)
    exact ⟨found, hfound⟩
  · rintro ⟨found, hfound⟩
    exact ⟨expression, found, expression?_eq_some.1 h, hfound⟩

theorem not_reads (h : f.expression? options = none) {name : String} :
    ¬f.Reads options name := by
  rintro ⟨expression, found, hholds, -⟩
  exact nomatch (expression?_eq_some.2 hholds).symm.trans h

theorem failure?_eq_some {d : Diagnostic} :
    f.failure? options = some d ↔ ∃ expression e, f.Holds options expression ∧
      analyze options expression = .error e ∧ d = ⟨f.label, expression, e.text⟩ := by
  simp only [failure?, Option.bind_eq_some_iff, expression?_eq_some]
  refine exists_congr fun expression => ?_
  cases analyze options expression with
  | ok found => simp
  | error e => simp [eq_comm]

/-- A field that cannot be read reads nothing. -/
theorem not_reads_of_failure {d : Diagnostic} (h : f.failure? options = some d) {name : String} :
    ¬f.Reads options name := by
  obtain ⟨expression, e, hholds, herror, -⟩ := failure?_eq_some.1 h
  rw [reads_iff (expression?_eq_some.2 hholds), herror]
  rintro ⟨found, hfound, -⟩
  exact nomatch hfound

/-- A field that cannot be read provides nothing, as it holds an expression. -/
theorem not_provides_of_failure {d : Diagnostic} (h : f.failure? options = some d)
    {name : String} : ¬f.Provides options name := by
  obtain ⟨expression, e, ⟨htype, -⟩, -⟩ := failure?_eq_some.1 h
  rintro ⟨-, hother, -⟩
  exact nomatch htype.symm.trans hother

theorem supplies_and_named {name : String} :
    f.supplies options = true ∧ f.name = some name ↔ f.Provides options name := by
  simp only [supplies, Provides, Bool.and_eq_true, Bool.not_eq_true', and_assoc]

end Field

/-- The expressions in a list of fields, in order. -/
def expressionsOf (options : Options) (fields : List Field) : List String :=
  fields.filterMap (·.expression? options)

/-! ### The scan -/

namespace Aggregation

variable {options : Options}

theorem scanField_none {a : Aggregation} {f : Field} (h : f.expression? options = none) :
    a.scanField options f = a := by
  rw [scanField, h]

theorem scanField_some {a : Aggregation} {f : Field} {expression : String}
    (h : f.expression? options = some expression) :
    a.scanField options f = a.add f expression (analyze options expression) := by
  rw [scanField, h]

theorem mem_scanField {a : Aggregation} {f : Field} {name : String} :
    name ∈ (a.scanField options f).found ↔ name ∈ a.found ∨ f.Reads options name := by
  cases h : f.expression? options with
  | none =>
    rw [scanField_none h]
    exact ⟨Or.inl, fun hname => hname.resolve_right (Field.not_reads h)⟩
  | some expression =>
    rw [scanField_some h, Field.reads_iff h]
    cases analyze options expression with
    | error e => exact ⟨Or.inl, fun hname => hname.resolve_right fun ⟨_, hok, _⟩ => nomatch hok⟩
    | ok found =>
      refine NameSet.mem_union.trans (or_congr_right ⟨fun hname => ⟨found, rfl, hname⟩, ?_⟩)
      rintro ⟨_, hok, hname⟩
      cases hok
      exact hname

theorem diagnostics_scanField (a : Aggregation) (f : Field) :
    (a.scanField options f).diagnostics = a.diagnostics ++ (f.failure? options).toList := by
  rw [Field.failure?]
  cases h : f.expression? options with
  | none => rw [scanField_none h, Option.bind_none, Option.toList_none, List.append_nil]
  | some expression =>
    rw [scanField_some h, Option.bind_some]
    cases analyze options expression with
    | error e => rfl
    | ok found => rw [add, Option.toList_none, List.append_nil]

theorem expressions_scanField (a : Aggregation) (f : Field) :
    (a.scanField options f).expressions =
      a.expressions + (f.expression? options).toList.length := by
  cases h : f.expression? options with
  | none => rw [scanField_none h, Option.toList_none, List.length_nil, Nat.add_zero]
  | some expression =>
    rw [scanField_some h]
    cases analyze options expression <;> rfl

theorem mem_foldl_scanField {a : Aggregation} {fields : List Field} {name : String} :
    name ∈ (fields.foldl (scanField options) a).found ↔
      name ∈ a.found ∨ ∃ f ∈ fields, f.Reads options name := by
  induction fields generalizing a with
  | nil => simp
  | cons f fields ih =>
    rw [List.foldl_cons, ih, mem_scanField, or_assoc]
    simp only [List.mem_cons, or_and_right, exists_or, exists_eq_left]

theorem diagnostics_foldl_scanField (a : Aggregation) (fields : List Field) :
    (fields.foldl (scanField options) a).diagnostics =
      a.diagnostics ++ fields.filterMap (·.failure? options) := by
  induction fields generalizing a with
  | nil => simp
  | cons f fields ih =>
    rw [List.foldl_cons, ih, diagnostics_scanField, List.append_assoc]
    cases h : f.failure? options <;> simp [h]

theorem expressions_foldl_scanField (a : Aggregation) (fields : List Field) :
    (fields.foldl (scanField options) a).expressions =
      a.expressions + (expressionsOf options fields).length := by
  induction fields generalizing a with
  | nil => rfl
  | cons f fields ih =>
    rw [List.foldl_cons, ih, expressions_scanField, Nat.add_assoc, ← List.length_append]
    unfold expressionsOf
    cases h : f.expression? options <;> simp [h]

theorem mem_ofFields {fields : List Field} {name : String} :
    name ∈ (ofFields options fields).found ↔ ∃ f ∈ fields, f.Reads options name :=
  mem_foldl_scanField.trans (or_iff_right (NameSet.not_mem_empty name))

theorem diagnostics_ofFields (options : Options) (fields : List Field) :
    (ofFields options fields).diagnostics = fields.filterMap (·.failure? options) :=
  diagnostics_foldl_scanField {} fields

theorem expressions_ofFields (options : Options) (fields : List Field) :
    (ofFields options fields).expressions = (expressionsOf options fields).length :=
  (expressions_foldl_scanField {} fields).trans (Nat.zero_add _)

/-- There is a diagnostic for each expression that cannot be read. -/
theorem length_diagnostics (options : Options) (fields : List Field) :
    (ofFields options fields).diagnostics.length =
      (expressionsOf options fields).countP
        fun expression => !(analyze options expression).isOk := by
  rw [diagnostics_ofFields, expressionsOf, List.length_filterMap_eq_countP, List.countP_filterMap]
  refine List.countP_congr fun f _ => ?_
  rw [Field.failure?]
  cases f.expression? options with
  | none => rfl
  | some expression =>
    rw [Option.bind_some]
    cases h : analyze options expression <;> simp [h, Except.isOk, Except.toBool]

/-- There are no diagnostics if each expression can be read. -/
theorem diagnostics_eq_nil {options : Options} {fields : List Field} :
    (ofFields options fields).diagnostics = [] ↔
      ∀ expression ∈ expressionsOf options fields, (analyze options expression).isOk = true := by
  rw [← List.length_eq_zero_iff, length_diagnostics, List.countP_eq_zero]
  simp only [Bool.not_eq_true', Bool.not_eq_false]

/-- There are no more failures than expressions. -/
theorem failures_le (options : Options) (fields : List Field) :
    (ofFields options fields).diagnostics.length ≤ (ofFields options fields).expressions := by
  rw [length_diagnostics, expressions_ofFields]
  exact List.countP_le_length

/-- There are no more expressions than fields. -/
theorem expressions_le (options : Options) (fields : List Field) :
    (ofFields options fields).expressions ≤ fields.length := by
  rw [expressions_ofFields]
  exact List.length_filterMap_le _ _

end Aggregation

/-! ### What a report says -/

namespace Report

/-- What a report says about the fields that it is about. -/
structure Describes (options : Options) (fields : List Field) (r : Report) : Prop where
  required_ascending : r.required.Pairwise (· < ·)
  mem_required (name : String) : name ∈ r.required ↔ ∃ f ∈ fields, f.Reads options name
  available_ascending : r.available.Pairwise (· < ·)
  mem_available (name : String) : name ∈ r.available ↔ ∃ f ∈ fields, f.Provides options name
  provided : r.provided = r.required.filter (· ∈ r.available)
  missing : r.missing = r.required.filter (· ∉ r.available)
  /-- One for each expression that cannot be read, in the order of the fields. -/
  diagnostics : r.diagnostics = fields.filterMap (·.failure? options)
  fieldCount : r.statistics.fields = fields.length
  expressionCount : r.statistics.expressions = (expressionsOf options fields).length
  failedCount : r.statistics.failed = r.diagnostics.length
  failed_le : r.statistics.failed ≤ r.statistics.expressions
  expressions_le : r.statistics.expressions ≤ r.statistics.fields

/-- Whether two reports list the same names. -/
structure SameNames (r s : Report) : Prop where
  required : r.required = s.required
  available : r.available = s.available
  provided : r.provided = s.provided
  missing : r.missing = s.missing

variable {options : Options} {fields others : List Field} {r s : Report}

/-- Reports list the same names if the fields they are about read the same names and
provide the same names. -/
theorem Describes.sameNames (hr : r.Describes options fields) (hs : s.Describes options others)
    (hreads : ∀ name, (∃ f ∈ fields, f.Reads options name) ↔ ∃ f ∈ others, f.Reads options name)
    (hprovides : ∀ name,
      (∃ f ∈ fields, f.Provides options name) ↔ ∃ f ∈ others, f.Provides options name) :
    r.SameNames s := by
  have hrequired : r.required = s.required :=
    NameSet.eq_of_mem_iff hr.required_ascending hs.required_ascending fun name => by
      rw [hr.mem_required, hs.mem_required, hreads]
  have havailable : r.available = s.available :=
    NameSet.eq_of_mem_iff hr.available_ascending hs.available_ascending fun name => by
      rw [hr.mem_available, hs.mem_available, hprovides]
  exact {
    required := hrequired
    available := havailable
    provided := by rw [hr.provided, hs.provided, hrequired, havailable]
    missing := by rw [hr.missing, hs.missing, hrequired, havailable] }

theorem mem_availableNames {name : String} :
    name ∈ availableNames options fields ↔ ∃ f ∈ fields, f.Provides options name := by
  unfold availableNames
  simp only [NameSet.mem_ofList, List.mem_filterMap, List.mem_filter, and_assoc,
    Field.supplies_and_named]

theorem describes_ofFields (options : Options) (fields : List Field) :
    (ofFields options fields).Describes options fields where
  required_ascending := (Aggregation.ofFields options fields).found.ascending
  mem_required _ := Aggregation.mem_ofFields
  available_ascending := (availableNames options fields).ascending
  mem_available _ := mem_availableNames
  provided := rfl
  missing := rfl
  diagnostics := Aggregation.diagnostics_ofFields options fields
  fieldCount := rfl
  expressionCount := Aggregation.expressions_ofFields options fields
  failedCount := rfl
  failed_le := Aggregation.failures_le options fields
  expressions_le := Aggregation.expressions_le options fields

end Report

/-- The report on fields describes them.  In another order of the fields it lists the
same names, and the same diagnostics in another order.  A field that cannot be read
adds its diagnostic and leaves the names as they are without it. -/
theorem report_describes (options : Options) (fields : List Field) :
    (Report.ofFields options fields).Describes options fields ∧
    (∀ others, fields.Perm others →
      (Report.ofFields options fields).SameNames (Report.ofFields options others) ∧
      (Report.ofFields options fields).diagnostics.Perm
        (Report.ofFields options others).diagnostics) ∧
    ∀ before f after d, fields = before ++ f :: after → f.failure? options = some d →
      (Report.ofFields options fields).SameNames (Report.ofFields options (before ++ after)) ∧
      (Report.ofFields options fields).diagnostics =
        (Report.ofFields options before).diagnostics ++
          d :: (Report.ofFields options after).diagnostics := by
  have hdescribes := Report.describes_ofFields options
  refine ⟨hdescribes fields, fun others hperm => ⟨?_, ?_⟩, ?_⟩
  · refine (hdescribes fields).sameNames (hdescribes others) (fun name => ?_) fun name => ?_
    · simp only [hperm.mem_iff]
    · simp only [hperm.mem_iff]
  · rw [(hdescribes fields).diagnostics, (hdescribes others).diagnostics]
    exact hperm.filterMap _
  · rintro before f after d rfl hfailure
    have hreads : ∀ name, ¬f.Reads options name := fun _ => Field.not_reads_of_failure hfailure
    have hprovides : ∀ name, ¬f.Provides options name :=
      fun _ => Field.not_provides_of_failure hfailure
    refine ⟨(hdescribes _).sameNames (hdescribes _) (fun name => ?_) fun name => ?_, ?_⟩
    · simp only [List.mem_append, List.mem_cons, or_and_right, exists_or, exists_eq_left, hreads,
        false_or]
    · simp only [List.mem_append, List.mem_cons, or_and_right, exists_or, exists_eq_left,
        hprovides, false_or]
    · rw [(hdescribes _).diagnostics, (hdescribes _).diagnostics, (hdescribes _).diagnostics,
        List.filterMap_append, List.filterMap_cons_some hfailure]

theorem report_describes_unfinished :
    let unfinished : Field := { type := expressionFieldType, content := some "{price *}" }
    let whole : Field := { type := expressionFieldType, content := some "{tax}" }
    let named : Field := { type := "text", name := some "tax" }
    let d : Diagnostic := ⟨"<unnamed expressionField>", "{price *}",
      "Parse error at line 1, column 8: Unexpected end of input"⟩
    unfinished.failure? {} = some d ∧
      (Report.ofFields {} [whole, unfinished, named]).SameNames
        (Report.ofFields {} [whole, named]) ∧
      (Report.ofFields {} [whole, unfinished, named]).diagnostics =
        (Report.ofFields {} [whole]).diagnostics ++
          d :: (Report.ofFields {} [named]).diagnostics := by
  intro unfinished whole named d
  have hfailure : unfinished.failure? {} = some d := by decide +kernel
  obtain ⟨-, -, hfails⟩ := report_describes {} [whole, unfinished, named]
  exact ⟨hfailure, hfails [whole] unfinished [named] d rfl hfailure⟩

end TemplateVars
