/-
The names of variables, as the lexer reads them.

* `tokenize_names` — an identifier among the tokens of a text is the name of a
  variable;
* `tokenize_name` — the name of a variable is read as one identifier.

Design notes: white space is a short list of code points, and of each of them it
is decided that no identifier holds it.  The other direction, over all letters,
would be decided by tables of many thousands.
-/
import TemplateVars.Proofs.Token.Kinds

namespace TemplateVars

open Text

/-- Whether a text is the name of a variable. -/
def isVariableName (name : String) : Bool := isWord name.toList && !isKeyword name

theorem ofWord_eq_identifier {word name : String} :
    TokenKind.ofWord word = .identifier name ↔ word = name ∧ isKeyword word = false := by
  unfold isKeyword TokenKind.ofWord
  split
  · simp [TokenKind.keywordText?]
  · split <;> simp [TokenKind.keywordText?]

/-! ### Characters -/

namespace Text.CodePoints

/-- The code points of a set, one by one. -/
def all (s : CodePoints) : List Nat := s.flatMap fun r => List.range' r.1 (r.2 + 1 - r.1)

theorem mem_all_of_contains {s : CodePoints} {n : Nat} (h : s.contains n = true) : n ∈ s.all := by
  induction s with
  | nil => exact nomatch h
  | cons r rest ih =>
    obtain ⟨low, high⟩ := r
    rw [contains, Bool.and_eq_true, Bool.or_eq_true, decide_eq_true_eq, decide_eq_true_eq] at h
    rw [all, List.flatMap_cons, List.mem_append]
    rcases h.2 with hhigh | hrest
    · refine .inl (List.mem_range'_1.2 ⟨h.1, ?_⟩)
      show n < low + (high + 1 - low)
      omega
    · exact .inr (ih hrest)

/-- What is checked of each code point of a set holds of the characters in it. -/
theorem of_all {s : CodePoints} {p : Char → Bool} (h : ∀ n ∈ s.all, p (Char.ofNat n) = true)
    {c : Char} (hc : s.contains c.toNat = true) : p c = true := by
  have := h c.toNat (mem_all_of_contains hc)
  rwa [Char.ofNat_toNat] at this

end Text.CodePoints

/-- No identifier holds white space. -/
theorem not_whiteSpace_of_part {c : Char} (h : isIdentifierPart c = true) :
    isWhiteSpace c = false := by
  refine Bool.eq_false_iff.2 fun hspace => ?_
  -- one look at each of the few code points that are white space
  have hno : (!isIdentifierPart c) = true :=
    CodePoints.of_all (s := whiteSpaceRanges) (p := fun c => !isIdentifierPart c)
      (by decide +kernel) hspace
  rw [h] at hno
  exact Bool.false_ne_true hno

theorem not_digit_of_start {c : Char} (h : isIdentifierStart c = true) : c.isDigit = false := by
  refine Bool.eq_false_iff.2 fun hdigit => ?_
  have hc : CodePoints.contains [(48, 57)] c.toNat = true := by
    rw [Char.isDigit, Bool.and_eq_true, decide_eq_true_eq, decide_eq_true_eq] at hdigit
    rw [CodePoints.contains, Bool.and_eq_true, Bool.or_eq_true, decide_eq_true_eq,
      decide_eq_true_eq]
    exact ⟨hdigit.1, .inl hdigit.2⟩
  have hno : (!isIdentifierStart c) = true :=
    CodePoints.of_all (p := fun c => !isIdentifierStart c) (by decide +kernel) hc
  rw [h] at hno
  exact Bool.false_ne_true hno

/-- The characters that the lexer looks for before it reads a word. -/
def otherStarts : List Char :=
  ['\n', '\r', '\u2028', '\u2029', '\ufeff', '/', '{', '}', '\x22', '\x27', Quoted.backtick, '.']

theorem ne_of_start {c d : Char} (hc : isIdentifierStart c = true) (hd : d ∈ otherStarts) :
    c ≠ d := by
  have hall : otherStarts.all (fun d => !isIdentifierStart d) = true := by decide +kernel
  rintro rfl
  have hno := List.all_eq_true.1 hall c hd
  rw [hc] at hno
  exact nomatch hno

/-! ### Tokens -/

/-- No gap stands before a word. -/
theorem gap_of_start {first : Char} (h : isIdentifierStart first = true) (rest : List Char) :
    Gap.scan (first :: rest) = .passed false 0 := by
  have hline : isLineTerminator first = false := by
    simp [isLineTerminator, ne_of_start h (d := '\n') (by decide),
      ne_of_start h (d := '\r') (by decide), ne_of_start h (d := '\u2028') (by decide),
      ne_of_start h (d := '\u2029') (by decide)]
  have hblank : isBlank first = false := by
    simp [isBlank, not_whiteSpace_of_part (isIdentifierPart_of_start h),
      ne_of_start h (d := '\ufeff') (by decide)]
  unfold Gap.scan
  rw [if_neg (Bool.eq_false_iff.1 hline), if_neg (Bool.eq_false_iff.1 hblank),
    if_neg (ne_of_start h (by decide))]

namespace Lexer

theorem scanToken_word {first : Char} {rest : List Char} (h : isWord (first :: rest) = true)
    (regexAllowed : Bool) (braces : List Brace) :
    scanToken regexAllowed braces first rest =
      .ok (.ofWord (String.ofList (first :: rest))) rest.length := by
  obtain ⟨hfirst, hrest⟩ : isIdentifierStart first = true ∧ rest.all isIdentifierPart = true := by
    rwa [isWord, Bool.and_eq_true] at h
  have hdigit : ¬first.isDigit = true := Bool.eq_false_iff.1 (not_digit_of_start hfirst)
  -- the word goes on to the end of the text
  have hothers : rest.takeWhile isIdentifierPart = rest := by
    have happend : (rest ++ []).takeWhile isIdentifierPart =
        rest ++ [].takeWhile isIdentifierPart :=
      List.takeWhile_append_of_pos (List.all_eq_true.1 hrest)
    simpa using happend
  rw [scanToken, if_neg fun h => ne_of_start hfirst (by decide) h.1,
    if_neg fun h => h.elim (ne_of_start hfirst (by decide)) (ne_of_start hfirst (by decide)),
    if_neg (ne_of_start hfirst (by decide)),
    if_neg fun h => h.elim hdigit fun h => ne_of_start hfirst (by decide) h.1,
    if_neg fun h => ne_of_start hfirst (by decide) h.1, if_pos hfirst, scanWord, hothers]
  simp

theorem tokensFrom_nil {l : Lexer} (h : l.rest = []) (access : Bool) :
    ∃ t, (l.tokensFrom access).1 = [t] ∧ t.kind = .eof := by
  have hgap : Gap.scan l.rest = .passed false 0 := by
    rw [h, Gap.scan]
  rw [tokensFrom]
  split
  · next heq => cases hgap.symm.trans heq
  · next newline used heq =>
    simp only []
    split
    · exact ⟨_, rfl, rfl⟩
    · next first rest hrest =>
      rw [skip_rest, h, List.drop_nil] at hrest
      cases hrest

/-- A text that is one token, with no gap in front of it. -/
theorem tokensFrom_whole {l : Lexer} {first : Char} {rest : List Char} {kind : TokenKind}
    (hl : l.rest = first :: rest) (hgap : Gap.scan (first :: rest) = .passed false 0)
    (hscan : scanToken l.regexAllowed l.braces first rest = .ok kind rest.length)
    (access : Bool) :
    ∃ t u, (l.tokensFrom access).1 = [t, u] ∧ t.kind = kind ∧ u.kind = .eof := by
  rw [tokensFrom]
  split
  · next heq => cases hgap.symm.trans (hl ▸ heq)
  · next newline used heq =>
    obtain ⟨rfl, rfl⟩ : newline = false ∧ used = 0 := by
      have := (hl ▸ heq).symm.trans hgap
      simpa using this
    simp only []
    split
    · next hrest =>
      rw [skip_rest, List.drop_zero, hl] at hrest
      cases hrest
    · next first' rest' hrest =>
      rw [skip_rest, List.drop_zero, hl] at hrest
      obtain ⟨rfl, rfl⟩ := List.cons.inj hrest
      rw [skip_regexAllowed, skip_braces, hscan]
      simp only []
      -- nothing is left behind the token but the end
      obtain ⟨u, hu, hkind⟩ := tokensFrom_nil (l := ((l.skip 0).skip (rest.length + 1)).after
        kind access) (by simp [after, hl]) kind.isAccess
      rw [hu]
      exact ⟨_, u, rfl, rfl, hkind⟩

/-- A word that is all of a text is one token. -/
theorem tokensFrom_word {l : Lexer} {first : Char} {rest : List Char}
    (hword : isWord (first :: rest) = true) (hl : l.rest = first :: rest) (access : Bool) :
    ∃ t u, (l.tokensFrom access).1 = [t, u] ∧
      t.kind = .ofWord (String.ofList (first :: rest)) ∧ u.kind = .eof := by
  have hfirst : isIdentifierStart first = true := by
    rw [isWord, Bool.and_eq_true] at hword
    exact hword.1
  exact tokensFrom_whole hl (gap_of_start hfirst rest) (scanToken_word hword _ _) access

/-- An identifier is a word that is no keyword. -/
theorem scanToken_names (regexAllowed : Bool) (braces : List Brace) (first : Char)
    (s : List Char) :
    (scanToken regexAllowed braces first s).All fun k =>
      ∀ name, k = .identifier name → isVariableName name = true := by
  have hmarks : ∀ text name, (text, TokenKind.identifier name) ∉ marks := by simp [marks]
  refine scanToken_all ?_ (by rintro _ _ ⟨⟩) (by rintro _ _ ⟨⟩) (by rintro _ _ ⟨⟩)
    (by rintro - _ _ _ ⟨⟩) ?_ ?_
  · intro opening piece _
    obtain ⟨text, ending⟩ := piece
    cases ending <;> cases opening <;> rintro _ ⟨⟩
  · intro word hword name hname
    obtain ⟨rfl, hkeyword⟩ := ofWord_eq_identifier.1 hname
    rw [isVariableName, hkeyword, String.toList_ofList, hword]
    rfl
  · intro _ _ text kind hmem _ name hname
    exact absurd (hname ▸ hmem) (hmarks text name)

end Lexer

/-- The name of a variable is read as one identifier. -/
theorem tokenize_name {name : String} (h : isVariableName name = true) :
    ∃ t u, tokenize name = [t, u] ∧ t.kind = .identifier name ∧ u.kind = .eof := by
  rw [isVariableName, Bool.and_eq_true, Bool.not_eq_true'] at h
  obtain ⟨hword, hkeyword⟩ := h
  cases hname : name.toList with
  | nil =>
    rw [hname] at hword
    exact nomatch hword
  | cons first rest =>
    rw [hname] at hword
    obtain ⟨t, u, htokens, ht, hu⟩ :=
      Lexer.tokensFrom_word (l := .ofText name.toList) hword hname false
    rw [← hname, String.ofList_toList, ofWord_eq_identifier.2 ⟨rfl, hkeyword⟩] at ht
    exact ⟨t, u, htokens, ht, hu⟩

/-- An identifier among the tokens of a text is the name of a variable. -/
theorem tokenize_names (source : String) :
    ∀ t ∈ tokenize source, ∀ name, t.kind = .identifier name → isVariableName name = true := by
  unfold tokenize Lexer.pass
  -- on the pass, from any state: which one it is does not matter for a name
  induction Lexer.ofText source.toList, false using Lexer.tokens_induction with
  | last l access t ht =>
    intro u hu name hname
    obtain rfl : u = t := List.mem_singleton.1 hu
    rw [hname] at ht
    exact nomatch ht
  | more l access first s n t next ts hscan hnext hbraces ih =>
    have hnames := Lexer.scanToken_names l.regexAllowed l.braces first s
    rw [hscan] at hnames
    exact List.forall_mem_cons.2 ⟨hnames, ih⟩

end TemplateVars
