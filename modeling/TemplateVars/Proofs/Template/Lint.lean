/-
The warnings for names of fields, against the names that expressions report.

* `isValidIdentifier_eq` — a name is valid if it is the name of a variable and
  has no recent letter or number;
* `lint_reportable` — names without recent letters are warned of exactly when no
  expression reports them, and only then.

Design notes: a name with a recent letter that is the name of a variable is the
one exception.  Expressions report it, unless it is built in, and it is warned
of as if they could not.
-/
import TemplateVars.Proofs.Analysis.Names
import TemplateVars.Template.Supply

namespace TemplateVars

open Text

/-- Whether a name has a letter or number that version 16 of Unicode lacks. -/
def hasRecent (name : String) : Bool := name.toList.any isRecent

theorem isValidIdentifier_eq (name : String) :
    isValidIdentifier name = (isVariableName name && !hasRecent name) := by
  unfold isValidIdentifier isVariableName hasRecent
  cases name.toList with
  | nil => rfl
  | cons first rest =>
    -- the same conditions, in another order
    show (isIdentifierStart first && rest.all isIdentifierPart && !(first :: rest).any isRecent &&
        !isKeyword name) =
      (isWord (first :: rest) && !isKeyword name && !(first :: rest).any isRecent)
    rw [isWord, Bool.and_right_comm]

/-! ### Warnings -/

/-- Whether one of some fields supplies a name. -/
def Supplied (options : Options) (fields : List Field) (name : String) : Prop :=
  ∃ f ∈ fields, f.supplies options = true ∧ f.name = some name

theorem nameWarning?_field {options : Options} {name : String} {w : Warning}
    (h : nameWarning? options name = some w) : w.field = name := by
  unfold nameWarning? at h
  split at h
  · cases h
    rfl
  · split at h
    · cases h
      rfl
    · exact nomatch h

theorem nameWarning?_eq_none {options : Options} {name : String} :
    nameWarning? options name = none ↔
      isValidIdentifier name = true ∧ options.isBuiltin name = false := by
  unfold nameWarning?
  cases isValidIdentifier name <;> cases options.isBuiltin name <;> simp

theorem nameWarning?_invalid {options : Options} {name : String} :
    nameWarning? options name = some ⟨name, .invalidIdentifier⟩ ↔
      isValidIdentifier name = false := by
  unfold nameWarning?
  cases isValidIdentifier name <;> cases options.isBuiltin name <;> simp

theorem nameWarning?_shadows {options : Options} {name : String} :
    nameWarning? options name = some ⟨name, .shadowsBuiltin⟩ ↔
      isValidIdentifier name = true ∧ options.isBuiltin name = true := by
  unfold nameWarning?
  cases isValidIdentifier name <;> cases options.isBuiltin name <;> simp

/-- A warning is given for a name that is supplied, and by that name alone. -/
theorem mem_lint {options : Options} {fields : List Field} {w : Warning} :
    w ∈ lint options fields ↔
      Supplied options fields w.field ∧ nameWarning? options w.field = some w := by
  simp only [lint, List.mem_filterMap, List.mem_filter]
  constructor
  · rintro ⟨name, ⟨f, ⟨hf, hsupplies⟩, hname⟩, hw⟩
    obtain rfl := nameWarning?_field hw
    exact ⟨⟨f, hf, hsupplies, hname⟩, hw⟩
  · rintro ⟨⟨f, hf, hsupplies, hname⟩, hw⟩
    exact ⟨w.field, ⟨f, ⟨hf, hsupplies⟩, hname⟩, hw⟩

/-- No warning is about a supplied name if it gives rise to none. -/
theorem lint_silent_iff {options : Options} {fields : List Field} {name : String}
    (h : Supplied options fields name) :
    (∀ w ∈ lint options fields, w.field ≠ name) ↔
      isValidIdentifier name = true ∧ options.isBuiltin name = false := by
  have hsilent :
      (∀ w ∈ lint options fields, w.field ≠ name) ↔ nameWarning? options name = none := by
    constructor
    · intro hnone
      refine Option.eq_none_iff_forall_ne_some.2 fun w hw => ?_
      obtain rfl := nameWarning?_field hw
      exact hnone w (mem_lint.2 ⟨h, hw⟩) rfl
    · rintro hnone w hw rfl
      exact nomatch (mem_lint.1 hw).2.symm.trans hnone
  rw [hsilent, nameWarning?_eq_none]

/-- What the warnings about a supplied name are worth.  They are right, and so is
the silence, for names without recent letters.  For others the warning is right
only if the name is built in, or that of no variable. -/
theorem lint_reportable (options : Options) (name : String) :
    (Reportable options name ↔ isVariableName name = true ∧ options.isBuiltin name = false) ∧
    ((Reportable options name ↔ isValidIdentifier name = true ∧ options.isBuiltin name = false) ↔
      ¬(isVariableName name = true ∧ options.isBuiltin name = false ∧ hasRecent name = true)) ∧
    ∀ fields, Supplied options fields name →
      ((∀ w ∈ lint options fields, w.field ≠ name) ↔
        Reportable options name ∧ hasRecent name = false) ∧
      (⟨name, .invalidIdentifier⟩ ∈ lint options fields → hasRecent name = false →
        ∀ o, ¬Reportable o name) ∧
      (⟨name, .shadowsBuiltin⟩ ∈ lint options fields →
        options.isBuiltin name = true ∧ ¬Reportable options name) := by
  have hvalid := isValidIdentifier_eq name
  refine ⟨reportable_iff, ?_, fun fields hsupplied => ⟨?_, ?_, ?_⟩⟩
  · -- valid means a variable without recent letters, so three answers decide it
    rw [reportable_iff, hvalid]
    cases isVariableName name <;> cases options.isBuiltin name <;> cases hasRecent name <;> decide
  · rw [lint_silent_iff hsupplied, reportable_iff, hvalid]
    cases isVariableName name <;> cases options.isBuiltin name <;> cases hasRecent name <;> decide
  · intro hwarning hrecent o hreport
    have hinvalid := nameWarning?_invalid.1 (mem_lint.1 hwarning).2
    rw [hvalid, (reportable_iff.1 hreport).1, hrecent] at hinvalid
    exact nomatch hinvalid
  · intro hwarning
    have hbuiltin := (nameWarning?_shadows.1 (mem_lint.1 hwarning).2).2
    refine ⟨hbuiltin, fun hreport => ?_⟩
    exact Bool.false_ne_true ((reportable_iff.1 hreport).2.symm.trans hbuiltin)

/-- A letter of version 17 is a variable, and yet it is warned of. -/
theorem lint_reportable_recent :
    Reportable {} "\u088f" ∧ isValidIdentifier "\u088f" = false ∧
      ¬∀ w ∈ lint {} [{ type := "text", name := some "\u088f" }], w.field ≠ "\u088f" := by
  have hvariable : isVariableName "\u088f" = true := by decide +kernel
  have hbuiltin : Options.isBuiltin {} "\u088f" = false := by decide +kernel
  have hrecent : hasRecent "\u088f" = true := by decide +kernel
  have hsupplied : Supplied {} [{ type := "text", name := some "\u088f" }] "\u088f" :=
    ⟨_, List.mem_cons_self, by decide +kernel, rfl⟩
  obtain ⟨hreportable, -, hfields⟩ := lint_reportable {} "\u088f"
  refine ⟨hreportable.2 ⟨hvariable, hbuiltin⟩, by decide +kernel, fun hsilent => ?_⟩
  have hold := ((hfields _ hsupplied).1.1 hsilent).2
  exact Bool.false_ne_true (hold.symm.trans hrecent)

end TemplateVars
