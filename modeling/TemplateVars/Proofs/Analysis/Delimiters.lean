/-
The braces around an expression.

The main result is `analyze_delimited`: an expression between braces has the same free variables
as without them, whatever white space is around the braces.

* `stripDelimiters_delimited` — what stands between braces is all that is left;
* `exists_trim` — a text is what is left of it once trimmed, with white space around it;
* `analyzeSource_around` — which makes no difference to the analysis.

Design notes: what stands between braces is read with its blanks, a text without braces is
trimmed first.  The two would differ where a blank at the end belonged to a token, and there is
no token of which the last character is a blank.
-/
import TemplateVars.Analysis.Collector
import TemplateVars.Proofs.Grammar.Moved

namespace TemplateVars

namespace Text

/-! ### White space around a text -/

theorem trimEnd_append {s w : List Char} (hw : ∀ c ∈ w, isWhiteSpace c = true) :
    trimEnd (s ++ w) = trimEnd s := by
  have hreverse : ∀ c ∈ w.reverse, isWhiteSpace c = true := fun c hc => hw c (List.mem_reverse.1 hc)
  rw [trimEnd, List.reverse_append, List.dropWhile_append_of_pos hreverse, trimEnd]

theorem trimEnd_concat {c : Char} (hc : isWhiteSpace c = false) (s : List Char) :
    trimEnd (s ++ [c]) = s ++ [c] := by
  rw [trimEnd, List.reverse_append, List.reverse_singleton, List.singleton_append,
    List.dropWhile_cons_of_neg (by rw [hc]; decide), List.reverse_cons, List.reverse_reverse]

/-- What stands between braces is all that is left. -/
theorem stripDelimiters_delimited {before behind : List Char}
    (hbefore : ∀ c ∈ before, isWhiteSpace c = true) (hbehind : ∀ c ∈ behind, isWhiteSpace c = true)
    (s : List Char) : stripDelimiters (before ++ '{' :: (s ++ '}' :: behind)) = s := by
  have hends : '{' :: (s ++ '}' :: behind) = ('{' :: s) ++ ['}'] ++ behind := by
    rw [List.append_assoc]
    rfl
  have htrim : trim (before ++ '{' :: (s ++ '}' :: behind)) = '{' :: (s ++ ['}']) := by
    rw [trim, List.dropWhile_append_of_pos hbefore, List.dropWhile_cons_of_neg (by decide), hends,
      trimEnd_append hbehind, trimEnd_concat (by decide)]
    rfl
  rw [stripDelimiters, htrim]
  simp only [List.getLast?_append, List.getLast?_singleton, List.dropLast_concat]
  rfl

/-- Whether a text, once trimmed, starts with an opening brace and ends with a closing one. -/
def Delimited (s : List Char) : Prop :=
  (trim s).head? = some '{' ∧ (trim s).getLast? = some '}'

instance : DecidablePred Delimited := fun _ => inferInstanceAs (Decidable (_ ∧ _))

theorem stripDelimiters_of_bare {s : List Char} (h : ¬Delimited s) :
    stripDelimiters s = trim s := by
  unfold stripDelimiters
  split
  · next rest htrim =>
    rw [htrim, if_neg]
    intro hlast
    refine h ⟨by rw [htrim]; rfl, ?_⟩
    rw [htrim, List.getLast?_cons, hlast]
    rfl
  · rfl

/-- A text is what is left of it once trimmed, with white space around it. -/
theorem exists_trim (s : List Char) : ∃ before behind, s = before ++ (trim s ++ behind) ∧
    (∀ c ∈ before, isWhiteSpace c = true) ∧ ∀ c ∈ behind, isWhiteSpace c = true := by
  have hend : ∀ t : List Char, trimEnd t ++ (t.reverse.takeWhile isWhiteSpace).reverse = t := by
    intro t
    rw [trimEnd, ← List.reverse_append, List.takeWhile_append_dropWhile, List.reverse_reverse]
  have hall : ∀ t : List Char, ∀ c ∈ t.takeWhile isWhiteSpace, isWhiteSpace c = true :=
    fun _ => List.all_eq_true.1 List.all_takeWhile
  refine ⟨s.takeWhile isWhiteSpace,
    ((s.dropWhile isWhiteSpace).reverse.takeWhile isWhiteSpace).reverse, ?_, hall s,
    fun c hc => hall _ c (List.mem_reverse.1 hc)⟩
  rw [trim, hend, List.takeWhile_append_dropWhile]

theorem isBlankText_around {before behind : List Char}
    (hbefore : ∀ c ∈ before, isWhiteSpace c = true) (hbehind : ∀ c ∈ behind, isWhiteSpace c = true)
    (s : List Char) : isBlankText (before ++ (s ++ behind)) = isBlankText s := by
  rw [isBlankText, List.all_append, List.all_append, List.all_eq_true.2 hbefore,
    List.all_eq_true.2 hbehind, Bool.true_and, Bool.and_true, isBlankText]

theorem isBlank_of_whiteSpace {c : Char} (h : isWhiteSpace c = true) : isBlank c = true := by
  rw [isBlank, h, Bool.true_or]

end Text

open Text

/-- The analysis of what is left of an expression without its braces. -/
def analyzeSource (options : Options) (source : String) : Except ParseError NameSet :=
  if isBlankSource source then .ok ∅
  else (parse source).map (freeVariables options)

theorem analyze_eq (options : Options) (expression : String) :
    analyze options expression = analyzeSource options (sourceOf expression) := rfl

theorem toOption_map {α β ε : Type} (f : α → β) (r : Except ε α) :
    (r.map f).toOption = r.toOption.map f := by
  cases r <;> rfl

/-- White space around a source makes no difference to its analysis. -/
theorem analyzeSource_around (options : Options) {source inner before behind : String}
    (hsource : source = before ++ (inner ++ behind))
    (hbefore : ∀ c ∈ before.toList, isWhiteSpace c = true)
    (hbehind : ∀ c ∈ behind.toList, isWhiteSpace c = true) :
    (analyzeSource options source).toOption = (analyzeSource options inner).toOption := by
  have hblank : isBlankSource source = isBlankSource inner := by
    rw [isBlankSource, hsource, String.toList_append, String.toList_append,
      isBlankText_around hbefore hbehind, isBlankSource]
  have hparse : (parse source).toOption = (parse inner).toOption := by
    rw [hsource]
    exact parse_around inner before behind (fun c hc => isBlank_of_whiteSpace (hbefore c hc))
      fun c hc => isBlank_of_whiteSpace (hbehind c hc)
  rw [analyzeSource, analyzeSource, hblank]
  split
  · rfl
  · rw [toOption_map, toOption_map, hparse]

/-- Braces around an expression, and white space around these, change neither whether it is one
nor its free variables. -/
theorem analyze_delimited (options : Options) (e before behind : String)
    (hbefore : ∀ c ∈ before.toList, isWhiteSpace c = true)
    (hbehind : ∀ c ∈ behind.toList, isWhiteSpace c = true) (he : ¬Delimited e.toList) :
    (analyze options (before ++ "\x7b" ++ e ++ "\x7d" ++ behind)).toOption =
      (analyze options e).toOption := by
  have hwritten : (before ++ "\x7b" ++ e ++ "\x7d" ++ behind).toList =
      before.toList ++ '{' :: (e.toList ++ '}' :: behind.toList) := by
    simp only [String.toList_append, List.append_assoc]
    rfl
  have hinside : sourceOf (before ++ "\x7b" ++ e ++ "\x7d" ++ behind) = e := by
    rw [sourceOf, hwritten, stripDelimiters_delimited hbefore hbehind, String.ofList_toList]
  have hbare : sourceOf e = String.ofList (trim e.toList) := by
    rw [sourceOf, stripDelimiters_of_bare he]
  obtain ⟨front, back, hsplit, hfront, hback⟩ := exists_trim e.toList
  have hsource : e =
      String.ofList front ++ (String.ofList (trim e.toList) ++ String.ofList back) := by
    rw [← String.ofList_append, ← String.ofList_append, ← hsplit, String.ofList_toList]
  rw [analyze_eq, analyze_eq, hinside, hbare]
  exact analyzeSource_around options hsource (by rwa [String.toList_ofList])
    (by rwa [String.toList_ofList])

/-- A comment at the end of an expression ends in front of the brace. -/
theorem analyze_delimited_comment :
    (∀ c ∈ " ".toList, isWhiteSpace c = true) ∧ ¬Delimited "a + b // c".toList ∧
      (analyze {} "a + b // c").isOk = true ∧
      (analyze {} (" " ++ "\x7b" ++ "a + b // c" ++ "\x7d" ++ " ")).toOption =
        (analyze {} "a + b // c").toOption := by
  have hspace : ∀ c ∈ " ".toList, isWhiteSpace c = true := List.all_eq_true.1 (by decide)
  have hbare : ¬Delimited "a + b // c".toList := by decide +kernel
  exact ⟨hspace, hbare, by decide +kernel,
    analyze_delimited {} "a + b // c" " " " " hspace hspace hbare⟩

end TemplateVars
