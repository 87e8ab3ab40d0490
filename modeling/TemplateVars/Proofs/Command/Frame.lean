/-
What a run changes in its directory.

* `Outcome.Delivers` — whether a run writes to a file what another one prints;
* `Invocation.run_target` — a report with a target fails, or it delivers what the report
  without the target prints;
* `run_frame` — a run that fails changes nothing, and one that ends well nothing but the
  target of its report.

Design notes: what a run sees is fixed before it writes, so it does not matter whether
the target is a file that it has read.
-/
import TemplateVars.Proofs.Command.Arguments
import TemplateVars.Proofs.Files.Saving

namespace TemplateVars

/-! ### Outcomes -/

namespace Outcome

theorem saved_ofPrinted_ne {p : Printed} {file : SavedFile} :
    (ofPrinted p).saved ≠ some file := by
  rw [ofPrinted]
  cases p.failure <;> exact nofun

/-- Whether a run failed and wrote nothing. -/
def FailsSafe (o : Outcome) : Prop := o.status ≠ 0 ∧ o.saved = none

theorem failsSafe_ofFailure (f : Failure) : (ofFailure f).FailsSafe := ⟨nofun, rfl⟩

/-- Whether a run wrote to a file what another one printed, and both ended well. -/
structure Delivers (o : Outcome) (target : String) (plain : Outcome) : Prop where
  status : o.status = 0
  status_plain : plain.status = 0
  saved : o.saved = some ⟨target, plain.output⟩
  saved_plain : plain.saved = none

end Outcome

/-! ### Commands -/

namespace Command

variable {files : Files}

/-- A report with a target fails, or it delivers what the report without it prints. -/
theorem runReport_target (files : Files) (options : Options) (form : OutputForm)
    (path target : String) :
    (runReport files options form path (some target)).FailsSafe ∨
      files.refusal? target = none ∧
        (runReport files options form path (some target)).Delivers target
          (runReport files options form path none) := by
  rw [runReport, runReport]
  cases Template.load files path with
  | error failure => exact .inl (Outcome.failsSafe_ofFailure failure)
  | ok t =>
    cases hrefusal : files.refusal? target with
    | some e =>
      simp only [hrefusal]
      exact .inl (Outcome.failsSafe_ofFailure _)
    | none =>
      simp only [hrefusal]
      exact .inr ⟨trivial, rfl, rfl, rfl, rfl⟩

/-- A command that writes a file is a report with a target. -/
theorem target_of_saved {command : Command} {c : Config} {file : SavedFile}
    (h : (command.run files c).saved = some file) :
    ∃ template form target, command = .report template form (some target) := by
  cases command with
  | vars expression form =>
    rw [run, runVars] at h
    cases hfound : analyze c.options expression with
    | ok names =>
      rw [hfound] at h
      exact (Outcome.saved_ofPrinted_ne h).elim
    | error e =>
      rw [hfound] at h
      exact (Outcome.saved_ofPrinted_ne h).elim
  | report template form target =>
    cases target with
    | some target => exact ⟨template, form, target, rfl⟩
    | none =>
      rw [run, runReport] at h
      cases hload : Template.load files template with
      | ok t =>
        rw [hload] at h
        exact (Outcome.saved_ofPrinted_ne h).elim
      | error failure =>
        rw [hload] at h
        exact (Outcome.saved_ofPrinted_ne h).elim
  | check path recursive => exact (Outcome.saved_ofPrinted_ne h).elim

end Command

namespace Invocation

variable {files : Files}

theorem target_of_saved {i : Invocation} {file : SavedFile}
    (h : (i.run files).saved = some file) :
    ∃ template form target, i.command = some (.report template form (some target)) := by
  obtain ⟨config, command⟩ := i
  rw [run] at h
  cases hload : loadConfig files { config, command } with
  | error failure =>
    rw [hload] at h
    exact (Outcome.saved_ofPrinted_ne h).elim
  | ok c =>
    rw [hload] at h
    cases command with
    | none => exact (Outcome.saved_ofPrinted_ne h).elim
    | some command =>
      obtain ⟨template, form, target, rfl⟩ := Command.target_of_saved h
      exact ⟨template, form, target, rfl⟩

/-- The same of a run under a configuration file. -/
theorem run_target (files : Files) (config : Option String) (template : String)
    (form : Option OutputForm) (target : String) :
    (run files ⟨config, some (.report template form (some target))⟩).FailsSafe ∨
      files.refusal? target = none ∧
        (run files ⟨config, some (.report template form (some target))⟩).Delivers target
          (run files ⟨config, some (.report template form none)⟩) := by
  -- the configuration is loaded in the same way, whatever the command is
  have hload : loadConfig files ⟨config, some (.report template form (some target))⟩ =
      loadConfig files ⟨config, some (.report template form none)⟩ := rfl
  rw [run, run, hload]
  cases loadConfig files ⟨config, some (.report template form none)⟩ with
  | error failure => exact .inl (Outcome.failsSafe_ofFailure failure)
  | ok c => exact Command.runReport_target files c.options _ template target

end Invocation

/-- The request for a report, written to a target or printed. -/
def Request.report (config : Option String) (template : String) (form : Option OutputForm)
    (target : Option String) : Request :=
  .run { config, command := some (.report template form target) }

/-- A run that writes a file was asked for a report with a target. -/
theorem target_of_saved {files : Files} {arguments : List String} {file : SavedFile}
    (h : (run files arguments).saved = some file) : ∃ config template form target,
      Request.ofArguments? arguments = some (.report config template form (some target)) := by
  rw [run] at h
  cases hasked : Request.ofArguments? arguments with
  | none =>
    rw [hasked] at h
    cases h
  | some request =>
    rw [hasked] at h
    cases request with
    | help | version => cases h
    | run i =>
      obtain ⟨config, command⟩ := i
      obtain ⟨template, form, target, rfl⟩ := Invocation.target_of_saved h
      exact ⟨config, template, form, target, rfl⟩

/-! ### Directories -/

namespace Directory

variable {d : Directory} {arguments : List String}

theorem fst_run : (d.run arguments).1 = TemplateVars.run d.view arguments := by
  rw [run]
  cases (TemplateVars.run d.view arguments).saved <;> rfl

theorem run_of_saved {file : SavedFile}
    (h : (TemplateVars.run d.view arguments).saved = some file) :
    (d.run arguments).2 = d.save file.path file.content := by
  rw [run, h]

theorem run_of_not_saved (h : (TemplateVars.run d.view arguments).saved = none) :
    (d.run arguments).2 = d := by
  rw [run, h]

end Directory

/-- What a run does to the directory in which it is run.  If it fails, nothing.  If the
directory changes, a report with a target was asked for; then a run that ends well
writes the target and nothing else, and it writes what the same report without a target
prints, which changes nothing.  The target may be any file, the template and the
configuration included. -/
theorem run_frame (d : Directory) (arguments : List String) :
    ((d.run arguments).1.status ≠ 0 → (d.run arguments).2 = d) ∧
    ((d.run arguments).2 ≠ d → ∃ config template form target,
      Request.ofArguments? arguments = some (.report config template form (some target))) ∧
    ∀ config template form target,
      Request.ofArguments? arguments = some (.report config template form (some target)) →
      (d.run arguments).1.status = 0 →
      ∃ content, d.Writes target content (d.run arguments).2 ∧
        (∃ plain, Request.ofArguments? plain = some (.report config template form none)) ∧
        ∀ plain, Request.ofArguments? plain = some (.report config template form none) →
          (d.run plain).1.status = 0 ∧ (d.run plain).1.output = content ∧ (d.run plain).2 = d := by
  refine ⟨fun hfails => ?_, fun hchanged => ?_,
    fun config template form target hasked hstatus => ?_⟩
  · cases hsaved : (run d.view arguments).saved with
    | none => exact Directory.run_of_not_saved hsaved
    | some file =>
      obtain ⟨config, template, form, target, hasked⟩ := target_of_saved hsaved
      rw [run_of_asked hasked] at hsaved
      rw [Directory.fst_run, run_of_asked hasked] at hfails
      obtain ⟨-, hnone⟩ | ⟨-, hdelivers⟩ :=
        Invocation.run_target d.view config template form target
      · exact nomatch hnone.symm.trans hsaved
      · exact absurd hdelivers.status hfails
  · cases hsaved : (run d.view arguments).saved with
    | none => exact absurd (Directory.run_of_not_saved hsaved) hchanged
    | some file => exact target_of_saved hsaved
  · rw [Directory.fst_run, run_of_asked hasked] at hstatus
    obtain ⟨hfails, -⟩ | ⟨hrefusal, hdelivers⟩ :=
      Invocation.run_target d.view config template form target
    · exact absurd hstatus hfails
    · have hsaved := hdelivers.saved
      rw [← run_of_asked hasked] at hsaved
      refine ⟨(Invocation.run d.view ⟨config, some (.report template form none)⟩).output, ?_,
        ⟨_, ofArguments?_arguments _⟩, fun plain hplain => ?_⟩
      · rw [Directory.run_of_saved hsaved]
        exact Directory.writes_save hrefusal _
      · rw [Directory.fst_run, run_of_asked hplain]
        refine ⟨hdelivers.status_plain, rfl, Directory.run_of_not_saved ?_⟩
        rw [run_of_asked hplain, hdelivers.saved_plain]

/-- The template may be the target; what cannot be created leaves it alone. -/
theorem run_frame_template :
    let d : Directory := { files := [(["t.json"], "[]")] }
    d.Writes "t.json" (d.run ["report", "t.json"]).1.output
        (d.run ["report", "t.json", "-o", "t.json"]).2 ∧
      (d.run ["report", "t.json", "-o", "out/t.json"]).2 = d := by
  intro d
  have hrequest : Request.ofArguments? ["report", "t.json", "-o", "t.json"] =
      some (.report none "t.json" none (some "t.json")) := by decide +kernel
  have hplain : Request.ofArguments? ["report", "t.json"] =
      some (.report none "t.json" none none) := by decide +kernel
  obtain ⟨-, -, hreport⟩ := run_frame d ["report", "t.json", "-o", "t.json"]
  obtain ⟨content, hwrites, -, hprints⟩ :=
    hreport none "t.json" none "t.json" hrequest (by decide +kernel)
  obtain ⟨-, rfl, -⟩ := hprints ["report", "t.json"] hplain
  exact ⟨hwrites, (run_frame d ["report", "t.json", "-o", "out/t.json"]).1 (by decide +kernel)⟩

end TemplateVars
