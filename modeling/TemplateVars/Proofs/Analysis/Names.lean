/-
The names that an expression can report.

* `Formed.freeNames` — what holds of the variables in a phrase holds of its free
  names;
* `reportable_iff` — some expression reports a name exactly when it is the name
  of a variable and not built in.

Design notes: the first direction follows a name from the tokens to the result;
names of properties and keywords are lost on the way, as they are no variables.
For the other one the expression is the name itself.
-/
import TemplateVars.Proofs.Analysis.Free
import TemplateVars.Proofs.Grammar.Formed
import TemplateVars.Proofs.Grammar.ReadBack.Operators
import TemplateVars.Proofs.Token.Name

namespace TemplateVars

open Text

/-! ### Free names of formed phrases -/

def Phrase.freeNames : Phrase → List String
  | .expr e => e.freeNames
  | .argument e => e.freeNames
  | .key k => k.freeNames
  | .property p => p.freeNames
  | .target p => p.freeNames
  | .binding p => p.freeNames
  | .parameter p => p.freeNames
  | .patternProperty p => p.freeNames

section

variable {P : String → Prop}

/-- What holds of the names in each item of a list holds of those in the list. -/
theorem forall_names {α : Type} {f : α → List String} {names : List α → List String}
    (hnil : names [] = []) (hcons : ∀ a as, names (a :: as) = f a ++ names as) {as : List α}
    (h : ∀ a ∈ as, ∀ name ∈ f a, P name) : ∀ name ∈ names as, P name := by
  induction as with
  | nil =>
    rw [hnil]
    exact nofun
  | cons a as ih =>
    obtain ⟨ha, has⟩ := List.forall_mem_cons.1 h
    rw [hcons]
    exact List.forall_mem_append.2 ⟨ha, ih has⟩

theorem forall_freeInExprs {es : List Expr} (h : ∀ e ∈ es, ∀ name ∈ e.freeNames, P name) :
    ∀ name ∈ freeInExprs es, P name :=
  forall_names (by rw [freeInExprs]) (fun e es => by rw [freeInExprs]) h

theorem forall_freeInProperties {ps : List Property}
    (h : ∀ p ∈ ps, ∀ name ∈ p.freeNames, P name) : ∀ name ∈ freeInProperties ps, P name :=
  forall_names (by rw [freeInProperties]) (fun p ps => by rw [freeInProperties]) h

theorem forall_freeInPatterns {ps : List Pattern} (h : ∀ p ∈ ps, ∀ name ∈ p.freeNames, P name) :
    ∀ name ∈ freeInPatterns ps, P name :=
  forall_names (by rw [freeInPatterns]) (fun p ps => by rw [freeInPatterns]) h

theorem forall_freeInPatternProperties {ps : List PatternProperty}
    (h : ∀ p ∈ ps, ∀ name ∈ p.freeNames, P name) :
    ∀ name ∈ freeInPatternProperties ps, P name :=
  forall_names (by rw [freeInPatternProperties]) (fun p ps => by rw [freeInPatternProperties]) h

theorem forall_freeInElements {es : List (Option Expr)}
    (h : ∀ e, some e ∈ es → ∀ name ∈ e.freeNames, P name) :
    ∀ name ∈ freeInElements es, P name := by
  refine forall_names (f := fun e : Option Expr => e.elim [] Expr.freeNames)
    (by rw [freeInElements]) (fun e es => ?_) fun e he => ?_
  · cases e <;> rw [freeInElements] <;> rfl
  · cases e with
    | none => rintro _ ⟨⟩
    | some e => exact h e he

theorem forall_freeInPatternElements {ps : List (Option Pattern)}
    (h : ∀ p, some p ∈ ps → ∀ name ∈ p.freeNames, P name) :
    ∀ name ∈ freeInPatternElements ps, P name := by
  refine forall_names (f := fun p : Option Pattern => p.elim [] Pattern.freeNames)
    (by rw [freeInPatternElements]) (fun p ps => ?_) fun p hp => ?_
  · cases p <;> rw [freeInPatternElements] <;> rfl
  · cases p with
    | none => rintro _ ⟨⟩
    | some p => exact h p hp

/-- The free names of a phrase are among its variables. -/
theorem Formed.freeNames {x : Phrase} (h : Formed P x) : ∀ name ∈ x.freeNames, P name := by
  -- on how the phrase is formed: `P` holds of each variable where it is read
  induction h with
  | identifier h => exact List.forall_mem_singleton.2 h
  | literal => exact nofun
  | binary op _ _ ihl ihr => exact List.forall_mem_append.2 ⟨ihl, ihr⟩
  | logical op _ _ ihl ihr => exact List.forall_mem_append.2 ⟨ihl, ihr⟩
  | unary op _ ih => exact ih
  | conditional _ _ _ iht ihc iha =>
    exact List.forall_mem_append.2 ⟨List.forall_mem_append.2 ⟨iht, ihc⟩, iha⟩
  | member _ _ _ ihb ihp => exact List.forall_mem_append.2 ⟨ihb, ihp⟩
  | call _ _ _ ihc iha => exact List.forall_mem_append.2 ⟨ihc, forall_freeInExprs iha⟩
  | array _ ih => exact forall_freeInElements ih
  | object _ ih => exact forall_freeInProperties ih
  | arrow _ _ _ _ ihps ihb =>
    intro name hname
    -- a bound name is not free, but need not be looked at
    have hpart := (List.mem_filter.1 hname).1
    exact List.forall_mem_append.2 ⟨forall_freeInPatterns ihps, ihb⟩ name hpart
  | arrowBlock => exact nofun
  | function => exact nofun
  | sequence _ _ ih => exact forall_freeInExprs ih
  | assign op _ _ iht ihv => exact List.forall_mem_append.2 ⟨iht, ihv⟩
  | update op place _ ih => exact ih
  | new _ _ ihc iha => exact List.forall_mem_append.2 ⟨ihc, forall_freeInExprs iha⟩
  | template _ _ ih => exact forall_freeInExprs ih
  | tagged _ _ _ iht ih => exact List.forall_mem_append.2 ⟨iht, forall_freeInExprs ih⟩
  | this => exact nofun
  | super => exact nofun
  | newTarget => exact nofun
  | argument _ ih => exact ih
  | spread _ ih => exact ih
  | fixed => exact nofun
  | computed _ ih => exact ih
  | value _ _ ihk ihe => exact List.forall_mem_append.2 ⟨ihk, ihe⟩
  | shorthand h => exact List.forall_mem_singleton.2 h
  | shorthandDefault h _ ih => exact List.forall_mem_cons.2 ⟨h, ih⟩
  | method _ _ _ _ _ ihk => exact List.forall_mem_append.2 ⟨ihk, nofun⟩
  | spreadProperty _ ih => exact ih
  | name => exact nofun
  | objectTarget _ ih => exact forall_freeInPatternProperties ih
  | arrayTarget _ _ ih => exact forall_freeInPatternElements ih
  | target _ ih => exact ih
  | default _ _ ihp ihe => exact List.forall_mem_append.2 ⟨ihp, ihe⟩
  | binding _ ih => exact ih
  | rest _ ih => exact ih
  | patternValue _ _ ihk ihp => exact List.forall_mem_append.2 ⟨ihk, ihp⟩
  | patternRest _ ih => exact ih

end

/-! ### Names as expressions -/

theorem dropWhile_whiteSpace {s : List Char} (h : ∀ c ∈ s, isWhiteSpace c = false) :
    s.dropWhile isWhiteSpace = s := by
  cases s with
  | nil => rfl
  | cons c s =>
    exact List.dropWhile_cons_of_neg (Bool.eq_false_iff.1 (h c List.mem_cons_self))

theorem trim_eq_self {s : List Char} (h : ∀ c ∈ s, isWhiteSpace c = false) : trim s = s := by
  have hreverse : ∀ c ∈ s.reverse, isWhiteSpace c = false := fun c hc => h c (List.mem_reverse.1 hc)
  rw [trim, dropWhile_whiteSpace h, trimEnd, dropWhile_whiteSpace hreverse, List.reverse_reverse]

theorem not_whiteSpace_of_word {s : List Char} (h : isWord s = true) :
    ∀ c ∈ s, isWhiteSpace c = false := by
  cases s with
  | nil => exact nofun
  | cons first rest =>
    rw [isWord, Bool.and_eq_true] at h
    refine List.forall_mem_cons.2 ⟨?_, fun c hc => ?_⟩
    · exact not_whiteSpace_of_part (isIdentifierPart_of_start h.1)
    · exact not_whiteSpace_of_part (List.all_eq_true.1 h.2 c hc)

/-- A word is the source of the expression that it is. -/
theorem sourceOf_word {name : String} (h : isWord name.toList = true) : sourceOf name = name := by
  have htrim : trim name.toList = name.toList := trim_eq_self (not_whiteSpace_of_word h)
  have hstrip : stripDelimiters name.toList = name.toList := by
    unfold stripDelimiters
    rw [htrim]
    split
    · next rest heq =>
      -- no word starts with a brace
      rw [heq, isWord, Bool.and_eq_true] at h
      exact absurd rfl (ne_of_start h.1 (by decide))
    · rfl
  rw [sourceOf, hstrip, String.ofList_toList]

theorem not_blank_word {name : String} (h : isWord name.toList = true) :
    isBlankSource name = false := by
  have hspace := not_whiteSpace_of_word h
  unfold isBlankSource isBlankText
  cases hname : name.toList with
  | nil =>
    rw [hname] at h
    exact nomatch h
  | cons first rest =>
    rw [hname] at hspace
    rw [List.all_cons, hspace first List.mem_cons_self, Bool.false_and]

/-- The name of a variable is an expression, which reads the variable. -/
theorem parse_name {name : String} (h : isVariableName name = true) :
    parse name = .ok (.identifier name) := by
  obtain ⟨t, u, htokens, ht, hu⟩ := tokenize_name h
  have hend : Closing [u] := Or.inr hu
  have hreads : Reads 1 Parse.expression [t, u] (.identifier name) [u] :=
    (reads_nameAlone ht hend 0).expression hu
  rw [parse, htokens, Parse.run]
  rcases hreads 0 with hok | ⟨hdeep, -⟩
  · rw [hok]
  · exact absurd hdeep (by decide)

/-! ### What is reported -/

/-- Whether some expression has a name among its variables. -/
def Reportable (options : Options) (name : String) : Prop :=
  ∃ expression found, analyze options expression = .ok found ∧ name ∈ found

theorem analyze_name {options : Options} {name : String} (h : isVariableName name = true)
    (hbuiltin : options.isBuiltin name = false) :
    ∃ found, analyze options name = .ok found ∧ name ∈ found := by
  have hword : isWord name.toList = true := by
    rw [isVariableName, Bool.and_eq_true] at h
    exact h.1
  refine ⟨(Expr.identifier name).freeSet options, ?_, ?_⟩
  · unfold analyze
    rw [sourceOf_word hword, if_neg (Bool.eq_false_iff.1 (not_blank_word hword)), parse_name h]
    exact congrArg Except.ok (Collector.freeVariables_eq options (.identifier name))
  · exact Collector.mem_freeSet.2 ⟨hbuiltin, List.mem_cons_self⟩

theorem analyze_variable {options : Options} {expression : String} {found : NameSet}
    (h : analyze options expression = .ok found) {name : String} (hname : name ∈ found) :
    isVariableName name = true ∧ options.isBuiltin name = false := by
  unfold analyze at h
  simp only [] at h
  split at h
  · cases h
    exact absurd hname (NameSet.not_mem_empty name)
  · cases hrun : Parse.expression.run { rest := tokenize (sourceOf expression) } with
    | mk result s =>
      rw [parse, hrun] at h
      cases result with
      | error error => exact nomatch h
      | ok e =>
        obtain rfl : freeVariables options e = found := Except.ok.inj h
        -- each identifier of the text is the name of a variable
        have hformed := Triple.run_ok (expression_formed fun name => isVariableName name = true)
          (s := ⟨_, 0⟩) (tokenize_names (sourceOf expression)) hrun
        rw [Collector.freeVariables_eq, Collector.mem_freeSet] at hname
        exact ⟨hformed.2.freeNames name hname.2, hname.1⟩

/-- Exactly the names of variables that are not built in are reported. -/
theorem reportable_iff {options : Options} {name : String} :
    Reportable options name ↔ isVariableName name = true ∧ options.isBuiltin name = false := by
  constructor
  · rintro ⟨expression, found, h, hname⟩
    exact analyze_variable h hname
  · rintro ⟨hvariable, hbuiltin⟩
    exact ⟨name, analyze_name hvariable hbuiltin⟩

end TemplateVars
