/-
The pattern for names of fields, against the tokens of a name.

* `NameClasses.isValid` — the check of a name by a pattern, over the classes of
  characters that the pattern refers to;
* `isValidIdentifier_eq_version16` — names of fields are checked with the classes of
  version 16 of Unicode;
* `valid_iff_tokens` — where a pattern knows the letters and numbers that the lexer knows,
  it accepts exactly the names that are read as one identifier and nothing else.

Design notes: the pattern and the lexer each come with a table of letters and numbers.  So
the classes of the pattern are a parameter, and the two have to agree only on the characters
of the name in question.
-/
import TemplateVars.Proofs.Template.Lint

namespace TemplateVars

open Text

/-- The classes of characters that a pattern for names refers to. -/
structure NameClasses where
  alphabetic : Char → Bool
  numeric : Char → Bool

namespace NameClasses

/-- The class of a first character: `[\p{Alphabetic}_$]`. -/
def isFirst (k : NameClasses) (c : Char) : Bool := k.alphabetic c || c == '_' || c == '$'

/-- The class of a later one: `[\p{Alphabetic}\p{N}_$\x{200C}\x{200D}]`. -/
def isLater (k : NameClasses) (c : Char) : Bool :=
  k.alphabetic c || k.numeric c || c == '_' || c == '$' || c == '\u200c' || c == '\u200d'

/-- Whether all of a text is one first character and any number of later ones. -/
def accepts (k : NameClasses) : List Char → Bool
  | first :: rest => k.isFirst first && rest.all k.isLater
  | [] => false

/-- The check of a name: the pattern accepts it, and it is not kept from use. -/
def isValid (k : NameClasses) (name : String) : Bool := k.accepts name.toList && !isKeyword name

/-- Whether the pattern and the lexer class each character of a name alike. -/
def AgreesOn (k : NameClasses) (name : String) : Prop :=
  ∀ c ∈ name.toList, k.alphabetic c = isAlphabetic c ∧ k.numeric c = isNumeric c

/-- The letters and numbers of version 16 of Unicode. -/
def version16 : NameClasses where
  alphabetic c := isAlphabetic c && !isRecent c
  numeric c := isNumeric c && !isRecent c

/-! ### Patterns and words -/

theorem isFirst_eq {k : NameClasses} {c : Char} (h : k.alphabetic c = isAlphabetic c) :
    k.isFirst c = isIdentifierStart c := by
  rw [isFirst, isIdentifierStart, h, Bool.or_assoc, Bool.or_comm, Bool.or_comm (c == '_')]

theorem isLater_eq {k : NameClasses} {c : Char} (halpha : k.alphabetic c = isAlphabetic c)
    (hnum : k.numeric c = isNumeric c) : k.isLater c = isIdentifierPart c := by
  rw [isLater, isIdentifierPart, isIdentifierStart, halpha, hnum]
  -- the same six conditions, in another order
  cases isAlphabetic c <;> cases isNumeric c <;> cases c == '_' <;> cases c == '$' <;> rfl

/-- A pattern that knows the letters and numbers of a text accepts it if it is a word. -/
theorem accepts_eq_isWord {k : NameClasses} {s : List Char}
    (h : ∀ c ∈ s, k.alphabetic c = isAlphabetic c ∧ k.numeric c = isNumeric c) :
    k.accepts s = isWord s := by
  match s with
  | [] => rfl
  | first :: rest =>
    obtain ⟨hfirst, hrest⟩ := List.forall_mem_cons.1 h
    have hlater : rest.all k.isLater = rest.all isIdentifierPart := by
      rw [Bool.eq_iff_iff, List.all_eq_true, List.all_eq_true]
      refine forall_congr' fun c => imp_congr_right fun hc => ?_
      rw [isLater_eq (hrest c hc).1 (hrest c hc).2]
    rw [accepts, isWord, isFirst_eq hfirst.1, hlater]

theorem AgreesOn.isValid_eq {k : NameClasses} {name : String} (h : k.AgreesOn name) :
    k.isValid name = isVariableName name := by
  rw [isValid, isVariableName, accepts_eq_isWord h]

/-! ### The classes of version 16 -/

theorem not_later_of_recent {c : Char} (h : isRecent c = true) : version16.isLater c = false := by
  have hne : ∀ {d : Char}, isRecent d = false → c ≠ d := by
    rintro d hd rfl
    exact Bool.false_ne_true (hd.symm.trans h)
  have hlow : c ≠ '_' := hne (by decide)
  have hdollar : c ≠ '$' := hne (by decide)
  have hnonjoiner : c ≠ '\u200c' := hne (by decide)
  have hjoiner : c ≠ '\u200d' := hne (by decide)
  simp [isLater, version16, h, hlow, hdollar, hnonjoiner, hjoiner]

theorem isLater_of_isFirst {k : NameClasses} {c : Char} (h : k.isFirst c = true) :
    k.isLater c = true := by
  simp only [isFirst, Bool.or_eq_true] at h
  rcases h with (h | h) | h <;> simp [isLater, h]

/-- The pattern of version 16 accepts no text with a letter or number that is new. -/
theorem not_accepts_of_recent {s : List Char} {c : Char} (hc : c ∈ s) (h : isRecent c = true) :
    version16.accepts s = false := by
  match s with
  | [] => exact nomatch hc
  | first :: rest =>
    refine Bool.eq_false_iff.2 fun haccepts => ?_
    rw [accepts, Bool.and_eq_true, List.all_eq_true] at haccepts
    have hlater : version16.isLater c = true := by
      rcases List.mem_cons.1 hc with rfl | hrest
      · exact isLater_of_isFirst haccepts.1
      · exact haccepts.2 c hrest
    exact Bool.false_ne_true ((not_later_of_recent h).symm.trans hlater)

theorem version16_agreesOn {name : String} (h : hasRecent name = false) :
    version16.AgreesOn name := by
  intro c hc
  have hold : isRecent c = false := by
    rw [hasRecent, List.any_eq_false] at h
    exact Bool.eq_false_iff.2 (h c hc)
  simp [version16, hold]

end NameClasses

/-- Names of fields are checked with the classes of version 16. -/
theorem isValidIdentifier_eq_version16 (name : String) :
    isValidIdentifier name = NameClasses.version16.isValid name := by
  rw [isValidIdentifier_eq]
  cases hrecent : hasRecent name with
  | false =>
    rw [(NameClasses.version16_agreesOn hrecent).isValid_eq, Bool.not_false, Bool.and_true]
  | true =>
    obtain ⟨c, hc, hnew⟩ := List.any_eq_true.1 hrecent
    rw [NameClasses.isValid, NameClasses.not_accepts_of_recent hc hnew, Bool.not_true,
      Bool.and_false, Bool.false_and]

/-! ### Names and tokens -/

/-- Whether a text is read as one identifier, which is all of the text, and nothing else. -/
def ReadAlone (name : String) : Prop :=
  (tokenize name).map (·.kind) = [.identifier name, .eof]

theorem readAlone_iff {name : String} : ReadAlone name ↔ isVariableName name = true := by
  constructor
  · intro h
    have hmem : .identifier name ∈ (tokenize name).map (·.kind) := h ▸ List.mem_cons_self
    obtain ⟨t, ht, hkind⟩ := List.mem_map.1 hmem
    exact tokenize_names name t ht name hkind
  · intro h
    obtain ⟨t, u, htokens, ht, hu⟩ := tokenize_name h
    simp [ReadAlone, htokens, ht, hu]

/-- A pattern that has the letters and numbers of the lexer, as far as a name goes, accepts
the name if and only if it is read as one identifier and nothing else.  Names of fields are
checked by the pattern with the classes of version 16, so for them this holds of every name
without a letter or number that is new. -/
theorem valid_iff_tokens :
    (∀ (k : NameClasses) (name : String), k.AgreesOn name →
      (k.isValid name = true ↔ ReadAlone name)) ∧
    ∀ name, isValidIdentifier name = NameClasses.version16.isValid name ∧
      (isValidIdentifier name = true ↔ ReadAlone name ∧ hasRecent name = false) := by
  refine ⟨fun k name h => ?_, fun name => ⟨isValidIdentifier_eq_version16 name, ?_⟩⟩
  · rw [h.isValid_eq, readAlone_iff]
  · rw [isValidIdentifier_eq, readAlone_iff, Bool.and_eq_true, Bool.not_eq_true']

/-- Letters, a number and a joiner, with the classes of version 16. -/
theorem valid_iff_tokens_joined :
    NameClasses.version16.AgreesOn "größe\u200d²" ∧ ReadAlone "größe\u200d²" := by
  have hagrees : NameClasses.version16.AgreesOn "größe\u200d²" :=
    NameClasses.version16_agreesOn (by decide +kernel)
  exact ⟨hagrees, (valid_iff_tokens.1 _ _ hagrees).1 (by decide +kernel)⟩

end TemplateVars
