/-
The commands agree on which expressions can be read.

* `statusOfVariables_eq` — the variables of an expression are printed if it can be read;
* `Check.failure_template` — a check of a template fails if its report has diagnostics,
  and says how many;
* `commands_agree` — so a check succeeds exactly when the report has no diagnostics, and
  exactly when the variables of each expression can be printed.

Design notes: all commands analyse expressions under the options of the configuration.
A check also warns of names, but how it ends depends on the expressions alone.
-/
import TemplateVars.Proofs.Command.Arguments
import TemplateVars.Proofs.Template.Report

namespace TemplateVars

/-! ### Runs -/

/-- A command is run under its configuration. -/
theorem Invocation.run_of_config {files : Files} {config : Option String} {c : Config}
    (h : Invocation.loadConfig files { config } = .ok c) (command : Command) :
    Invocation.run files { config, command := some command } = command.run files c := by
  have hload : Invocation.loadConfig files { config, command := some command } = .ok c := h
  rw [Invocation.run, hload]

namespace Outcome

theorem status_ofPrinted {p : Printed} : (ofPrinted p).status = 0 ↔ p.failure = none := by
  unfold ofPrinted
  cases p.failure <;> simp

theorem errors_ofPrinted {p : Printed} {failure : Failure} (h : p.failure = some failure) :
    (ofPrinted p).errors = "Error: " ++ failure.text ++ "\n" := by
  rw [ofPrinted, h]

/-- How a run that only prints ends depends on its failure alone. -/
theorem ofPrinted_congr {p q : Printed} (h : p.failure = q.failure) :
    (ofPrinted p).status = (ofPrinted q).status ∧ (ofPrinted p).errors = (ofPrinted q).errors := by
  rw [ofPrinted, ofPrinted, h]
  cases q.failure <;> exact ⟨rfl, rfl⟩

/-- Whether a run ends well and prints a report. -/
def Prints (o : Outcome) (form : OutputForm) (r : Report) : Prop :=
  o.status = 0 ∧ o.output = Command.showReport form r

end Outcome

/-- How a run ends that prints the free variables of an expression. -/
def statusOfVariables (files : Files) (config : Option String) (expression : String) : Nat :=
  (run files (Invocation.arguments { config, command := some (.vars expression none) })).status

theorem statusOfVariables_eq {files : Files} {config : Option String} {c : Config}
    (h : Invocation.loadConfig files { config } = .ok c) (expression : String) :
    statusOfVariables files config expression =
      if (analyze c.options expression).isOk then 0 else 1 := by
  rw [statusOfVariables, run_of_asked (ofArguments?_arguments _), Invocation.run_of_config h,
    Command.run, Command.runVars]
  cases analyze c.options expression <;> rfl

/-! ### Checks -/

namespace Check

/-- The failure of a check that finds expressions that cannot be read. -/
def failureOf (path : String) (failed total : Nat) : Failure :=
  .template path (failed.repr ++ " of " ++ total.repr ++ " expressions failed to parse")

variable {files : Files} {options : Options} {path : String} {t : Template}

theorem failure_template :
    (template options path t).failure =
      if (Report.ofTemplate options t).diagnostics = [] then none
      else some (failureOf path
        ((expressionsOf options t.fields).countP fun e => !(analyze options e).isOk)
        (expressionsOf options t.fields).length) := by
  rw [← Aggregation.length_diagnostics, ← Aggregation.expressions_ofFields, template]
  cases h : (Report.ofTemplate options t).diagnostics with
  | nil => rfl
  | cons d ds => rfl

/-- The failure of a check depends on the expressions alone. -/
theorem failure_template_congr {u : Template}
    (h : expressionsOf options u.fields = expressionsOf options t.fields) :
    (template options path u).failure = (template options path t).failure := by
  rw [failure_template, failure_template]
  simp only [Report.ofTemplate, Report.ofFields, Aggregation.diagnostics_eq_nil, h]

theorem failure_file_error {failure : Failure} (h : Template.load files path = .error failure) :
    (file files options path).failure = some failure := by
  rw [file, h]

theorem failure_file_ok (h : Template.load files path = .ok t) :
    (file files options path).failure = (template options path t).failure := by
  rw [file, h]

theorem failure_file_eq_none :
    (file files options path).failure = none ↔ ∃ t, Template.load files path = .ok t ∧
      (Report.ofTemplate options t).diagnostics = [] := by
  cases h : Template.load files path with
  | error failure => simp [failure_file_error h]
  | ok t => simp [failure_file_ok h, failure_template]

end Check

/-- What the commands say of a template under a configuration.  A check succeeds if
the report is printed and has no diagnostics, and if the template loads and the
variables of each of its expressions can be printed.  When it fails for a template that
loads, it counts the expressions for which they cannot.  Only the expressions matter:
with other names, and so with other warnings, it ends in the same way. -/
theorem commands_agree {files : Files} {config : Option String} {c : Config} {path : String}
    {form : Option OutputForm} {checking reporting : List String}
    (hconfig : Invocation.loadConfig files { config } = .ok c)
    (hchecking : Request.ofArguments? checking =
      some (.run { config, command := some (.check path false) }))
    (hreporting : Request.ofArguments? reporting =
      some (.run { config, command := some (.report path form none) })) :
    ((run files checking).status = 0 ↔ ∃ t, Template.load files path = .ok t ∧
      (run files reporting).Prints ((form.or c.form).getD .text) (.ofTemplate c.options t) ∧
      (Report.ofTemplate c.options t).diagnostics = []) ∧
    ((run files checking).status = 0 ↔ ∃ t, Template.load files path = .ok t ∧
      ∀ e ∈ expressionsOf c.options t.fields, statusOfVariables files config e = 0) ∧
    ∀ t, Template.load files path = .ok t →
      ((run files checking).status ≠ 0 → (run files checking).errors = "Error: " ++
        (Check.failureOf path
          ((expressionsOf c.options t.fields).countP (statusOfVariables files config · = 1))
          (expressionsOf c.options t.fields).length).text ++ "\n") ∧
      ∀ others u, Invocation.loadConfig others { config } = .ok c →
        Template.load others path = .ok u →
        expressionsOf c.options u.fields = expressionsOf c.options t.fields →
        (run others checking).status = (run files checking).status ∧
          (run others checking).errors = (run files checking).errors := by
  have hcheck : ∀ fs, Invocation.loadConfig fs { config } = .ok c →
      run fs checking = .ofPrinted (Check.file fs c.options path) := fun fs h => by
    rw [run_of_asked hchecking, Invocation.run_of_config h]
    rfl
  have hreport : ∀ t, Template.load files path = .ok t →
      (run files reporting).Prints ((form.or c.form).getD .text) (.ofTemplate c.options t) := by
    intro t ht
    rw [run_of_asked hreporting, Invocation.run_of_config hconfig, Command.run, Command.runReport,
      ht]
    exact ⟨rfl, rfl⟩
  have hvars := statusOfVariables_eq hconfig
  rw [hcheck files hconfig, Outcome.status_ofPrinted, Check.failure_file_eq_none]
  refine ⟨?_, ?_, fun t ht => ⟨fun hfails => ?_, fun others u hothers hu hsame => ?_⟩⟩
  · refine exists_congr fun t => and_congr_right fun ht => ?_
    exact (and_iff_right (hreport t ht)).symm
  · refine exists_congr fun t => and_congr_right fun _ => ?_
    refine Aggregation.diagnostics_eq_nil.trans (forall₂_congr fun e _ => ?_)
    rw [hvars]
    cases (analyze c.options e).isOk <;> decide
  · have hdiagnostics : (Report.ofTemplate c.options t).diagnostics ≠ [] :=
      fun hnil => hfails (Outcome.status_ofPrinted.2 (Check.failure_file_eq_none.2 ⟨t, ht, hnil⟩))
    have hcount : (expressionsOf c.options t.fields).countP (statusOfVariables files config · = 1) =
        (expressionsOf c.options t.fields).countP fun e => !(analyze c.options e).isOk := by
      refine List.countP_congr fun e _ => ?_
      rw [hvars]
      cases (analyze c.options e).isOk <;> decide
    rw [hcount]
    refine Outcome.errors_ofPrinted ?_
    rw [Check.failure_file_ok ht, Check.failure_template, if_neg hdiagnostics]
  · rw [hcheck others hothers]
    refine Outcome.ofPrinted_congr ?_
    rw [Check.failure_file_ok hu, Check.failure_file_ok ht]
    exact Check.failure_template_congr hsame

theorem commands_agree_unfinished :
    let t := Template.ofFields [
      { type := expressionFieldType, content := some "{tax}" },
      { type := expressionFieldType, content := some "{price *}" },
      { type := "text", name := some "net price" }]
    let files := Directory.view { files := [(["t.json"], t.toDocument)] }
    Template.load files "t.json" = .ok t ∧ lint {} t.fields ≠ [] ∧
      (run files ["check", "t.json"]).status ≠ 0 ∧
      (run files ["check", "t.json"]).errors =
        "Error: Template error in t.json: 1 of 2 expressions failed to parse\n" := by
  intro t files
  have hload : Template.load files "t.json" = .ok t := by
    have hsome : (Template.load files "t.json").toOption = some t := by decide +kernel
    cases h : Template.load files "t.json" with
    | error failure =>
      rw [h] at hsome
      exact nomatch hsome
    | ok u =>
      rw [h] at hsome
      exact congrArg _ (Option.some.inj hsome)
  obtain ⟨-, hvars, hfails⟩ := @commands_agree files none {} "t.json" none
    ["check", "t.json"] ["report", "t.json"] rfl (by decide +kernel) (by decide +kernel)
  have hprice : statusOfVariables files none "{price *}" = 1 := by decide +kernel
  have hstatus : (run files ["check", "t.json"]).status ≠ 0 := fun hzero => by
    obtain ⟨u, hu, hall⟩ := hvars.1 hzero
    obtain rfl : t = u := Except.ok.inj (hload.symm.trans hu)
    exact absurd (hall "{price *}" (by decide +kernel)) (by rw [hprice]; decide)
  refine ⟨hload, by decide +kernel, hstatus, ((hfails t hload).1 hstatus).trans ?_⟩
  decide +kernel

end TemplateVars
