/-
Blanks around a text.

`Moved n ts ts'` says that `ts'` are the tokens `ts` at other places, as they are read with more
or fewer blanks around a text of `n` tokens.

* `Lexer.scanToken_within` — no token goes on into the blanks at the end of a text;
* `Lexer.scanToken_blanks` — so what is no token is none with blanks behind it;
* `tokenize_append_blanks`, `tokenize_blanks_append` — the tokens with blanks behind a text, and
  in front of it.

Design notes: blanks behind a text may change what is wrong with its last token, as a backslash
at the end escapes the first of them, but not that something is wrong with it.  Of the first
token they may change whether it is in a new line, and so they do of the end.
-/
import TemplateVars.Proofs.Token.Spacing

namespace TemplateVars

open Text

/-! ### Moved tokens -/

/-- Whether tokens end in the same way, with the end of the text or with some failure. -/
inductive SameEnd : TokenKind → TokenKind → Prop where
  | eof : SameEnd .eof .eof
  | invalid (cause cause' : LexError) : SameEnd (.invalid cause) (.invalid cause')

theorem SameEnd.terminal {k k' : TokenKind} (h : SameEnd k k') :
    k.isTerminal = true ∧ k'.isTerminal = true := by
  cases h <;> exact ⟨rfl, rfl⟩

theorem SameEnd.of_eq {k k' : TokenKind} (hk : k' = k) (h : k.isTerminal = true) :
    SameEnd k k' := by
  subst hk
  cases k' with
  | eof => exact .eof
  | invalid cause => exact .invalid cause cause
  | _ => exact nomatch h

theorem SameEnd.eq_or {k k' : TokenKind} (h : SameEnd k k') :
    k' = k ∨ ∃ cause cause', k = .invalid cause ∧ k' = .invalid cause' := by
  cases h with
  | eof => exact .inl rfl
  | invalid cause cause' => exact .inr ⟨cause, cause', rfl, rfl⟩

/-- Whether tokens are others that are moved; of the first of `n` tokens it does not matter
whether it is in a new line. -/
inductive Moved (n : Nat) : List Token → List Token → Prop where
  | last {t t' : Token} (h : SameEnd t.kind t'.kind) : Moved n [t] [t']
  | live {t t' : Token} {ts ts' : List Token} (hlive : t.kind.isTerminal = false)
      (hkind : t'.kind = t.kind) (hle : ts.length < n)
      (hline : ts.length + 1 < n → t'.newlineBefore = t.newlineBefore) (h : Moved n ts ts') :
      Moved n (t :: ts) (t' :: ts')

/-! ### Where tokens end -/

/-- Whether the last one of some characters at the front of a text is there, and is no blank. -/
def EndsSolid (s : List Char) (n : Nat) : Prop :=
  ∃ m c, n = m + 1 ∧ s[m]? = some c ∧ isBlank c = false

namespace EndsSolid

variable {s : List Char} {n : Nat}

theorem one {c : Char} (hc : isBlank c = false) : EndsSolid (c :: s) 1 := ⟨0, c, rfl, rfl, hc⟩

theorem of_drop {k : Nat} (h : EndsSolid (s.drop k) n) : EndsSolid s (k + n) := by
  obtain ⟨m, c, rfl, hget, hc⟩ := h
  exact ⟨k + m, c, rfl, List.getElem?_drop.symm.trans hget, hc⟩

theorem cons (h : EndsSolid s n) (c : Char) : EndsSolid (c :: s) (1 + n) :=
  of_drop (k := 1) h

/-- What ends solidly ends in front of blanks. -/
theorem le {w : List Char} (h : EndsSolid (s ++ w) n) (hw : ∀ c ∈ w, isBlank c = true) :
    n ≤ s.length := by
  obtain ⟨m, c, rfl, hget, hc⟩ := h
  refine Nat.succ_le_of_lt (Nat.lt_of_not_le fun hle => ?_)
  rw [List.getElem?_append_right hle] at hget
  exact nomatch hc.symm.trans (hw c (List.mem_of_getElem? hget))

end EndsSolid

namespace Quoted

theorem scanString_solid {quote : Char} (hquote : isBlank quote = false) {s value : List Char}
    {n : Nat} (h : scanString quote s = .ok value n) : EndsSolid s n := by
  fun_induction scanString quote s generalizing value n with
  | case1 => cases h
  | case2 rest => cases h; exact .one hquote
  | case3 rest cs k _ _ ih =>
    obtain ⟨v, j, hrest, -, rfl⟩ := before_ok h
    rw [Nat.add_assoc]
    exact (ih hrest).of_drop.cons _
  | case4 => cases h
  | case5 => cases h
  | case6 c rest _ _ _ ih =>
    obtain ⟨v, j, hrest, -, rfl⟩ := before_ok h
    exact (ih hrest).cons c

theorem scanPiece_solid {s : List Char} {value : List Char × PieceEnd} {n : Nat}
    (h : scanPiece s = .ok value n) : EndsSolid s n := by
  fun_induction scanPiece s generalizing value n with
  | case1 => cases h
  | case2 rest => cases h; exact .one (by decide)
  | case3 rest cs k _ _ ih =>
    obtain ⟨j, hmap, rfl⟩ := Scan.shift_ok h
    obtain ⟨v, hrest, -⟩ := Scan.map_ok hmap
    rw [Nat.add_assoc]
    exact (ih hrest).of_drop.cons _
  | case4 => cases h
  | case5 c rest _ _ hopens =>
    cases h
    obtain ⟨more, rfl⟩ := List.head?_eq_some_iff.1 hopens.2
    exact (EndsSolid.one (by decide)).cons c
  | case6 c rest _ _ _ ih =>
    obtain ⟨j, hmap, rfl⟩ := Scan.shift_ok h
    obtain ⟨v, hrest, -⟩ := Scan.map_ok hmap
    exact (ih hrest).cons c

theorem scanPattern_solid {inClass : Bool} {s value : List Char} {n : Nat}
    (h : scanPattern inClass s = .ok value n) : EndsSolid s n := by
  fun_induction scanPattern inClass s generalizing value n with
  | case1 => cases h
  | case2 => cases h
  | case3 => cases h
  | case4 => cases h
  | case5 inClass c rest _ _ ih =>
    obtain ⟨v, j, hrest, -, rfl⟩ := before_ok h
    exact EndsSolid.of_drop (k := 2) (ih hrest)
  | case6 inClass c rest _ _ hclose =>
    cases h
    exact .one (by rw [hclose.1]; decide)
  | case7 =>
    next ih =>
    obtain ⟨v, j, hrest, -, rfl⟩ := before_ok h
    exact (ih hrest).cons _

end Quoted

namespace Lexer

variable {c : Char} {e : List Char}

/-- A regular expression ends with a slash or with flags. -/
theorem scanRegex_within {s : List Char} {kind : TokenKind} {n : Nat}
    (hw : ∀ d ∈ c :: e, isBlank d = true) (h : Quoted.scanRegex (s ++ c :: e) = .ok kind n) :
    n ≤ s.length := by
  unfold Quoted.scanRegex at h
  cases hscan : Quoted.scanPattern false (s ++ c :: e) with
  | error cause k => rw [hscan] at h; exact nomatch h
  | ok pattern k =>
    rw [hscan] at h
    cases h
    have hk : k ≤ s.length := (Quoted.scanPattern_solid hscan).le hw
    have hpart := not_part_of_blank (List.forall_mem_cons.1 hw).1
    rw [List.drop_append_of_le_length hk, takeWhile_append_stop hpart]
    have hflags := (List.takeWhile_prefix (l := s.drop k) isIdentifierPart).length_le
    rw [List.length_drop] at hflags
    omega

/-- No token goes on into the blanks at the end of a text. -/
theorem scanToken_within {regexAllowed : Bool} {braces : List Brace} {first : Char}
    {s : List Char} {kind : TokenKind} {n : Nat} (hw : ∀ d ∈ c :: e, isBlank d = true)
    (h : scanToken regexAllowed braces first (s ++ c :: e) = .ok kind n) : n ≤ s.length := by
  have hc := (List.forall_mem_cons.1 hw).1
  unfold scanToken at h
  split at h
  · obtain ⟨value, hscan, -⟩ := Scan.map_ok h
    exact (Quoted.scanPiece_solid hscan).le hw
  split at h
  · next hquote =>
    obtain ⟨value, hscan, -⟩ := Scan.map_ok h
    refine (Quoted.scanString_solid ?_ hscan).le hw
    rcases hquote with rfl | rfl <;> decide
  split at h
  · obtain ⟨value, hscan, -⟩ := Scan.map_ok h
    exact (Quoted.scanPiece_solid hscan).le hw
  split at h
  · rw [Numeral.scan_append hc] at h
    exact Numeral.scan_le h
  split at h
  · exact scanRegex_within hw h
  split at h
  · unfold scanWord at h
    simp only [takeWhile_append_stop (not_part_of_blank hc)] at h
    split at h
    · exact nomatch h
    · cases h
      exact (List.takeWhile_prefix _).length_le
  · unfold scanMark at h
    rw [← List.cons_append, mark_append hc] at h
    exact (scanMark_settled first s _ _ h).1

/-- What is a token is the same one with blanks behind the text. -/
theorem scanToken_append {regexAllowed : Bool} {braces : List Brace} {first : Char}
    {s w : List Char} {kind : TokenKind} {n : Nat} (hw : ∀ d ∈ w, isBlank d = true)
    (h : scanToken regexAllowed braces first s = .ok kind n) :
    scanToken regexAllowed braces first (s ++ w) = .ok kind n := by
  cases w with
  | nil => rwa [List.append_nil]
  | cons c e =>
    exact (scanToken_settled regexAllowed braces first s _ _ h).2 c e (List.forall_mem_cons.1 hw).1

/-- What is no token is none with blanks behind it. -/
theorem scanToken_blanks {regexAllowed : Bool} {braces : List Brace} {first : Char}
    {s w : List Char} {cause : LexError} {n : Nat} (hw : ∀ d ∈ w, isBlank d = true)
    (h : scanToken regexAllowed braces first s = .error cause n) :
    ∃ cause' n', scanToken regexAllowed braces first (s ++ w) = .error cause' n' := by
  cases w with
  | nil => exact ⟨cause, n, by rwa [List.append_nil]⟩
  | cons c e =>
    cases hscan : scanToken regexAllowed braces first (s ++ c :: e) with
    | error cause' n' => exact ⟨cause', n', rfl⟩
    | ok kind m =>
      -- the token would be one without the blanks
      have hcut : ¬CutsFraction (s ++ c :: e) s.length := by
        rintro ⟨-, hdigit⟩
        rw [List.drop_left] at hdigit
        exact nomatch hdigit.symm.trans (not_digitOf_blank (List.forall_mem_cons.1 hw).1 10)
      have hshort := scanToken_take hscan (scanToken_within hw hscan) fun _ => hcut
      rw [List.take_left] at hshort
      exact nomatch h.symm.trans hshort

end Lexer

/-! ### Gaps at the end -/

namespace Gap

theorem slash_not_blank {w : List Char} (hw : ∀ c ∈ w, isBlank c = true) (rest : List Char) :
    w ≠ '/' :: rest := by
  rintro rfl
  exact absurd (hw _ List.mem_cons_self) (by decide)

/-- Blanks end no comment. -/
theorem comment_blanks {s w : List Char} (h : comment? s = none)
    (hw : ∀ c ∈ w, isBlank c = true) : comment? (s ++ w) = none := by
  induction s with
  | nil =>
    rw [List.nil_append]
    induction w with
    | nil => rfl
    | cons c w ih =>
      obtain ⟨-, hmore⟩ := List.forall_mem_cons.1 hw
      rw [comment?, ih hmore, Option.map_none]
      exact fun rest _ hrest => slash_not_blank hmore rest hrest
  | cons c s ih =>
    have hopen : ∀ rest, c = '*' → s = '/' :: rest → False := by
      rintro rest rfl rfl
      exact Option.some_ne_none _ h
    have hnone : comment? s = none := by
      rw [comment?, Option.map_eq_none_iff] at h
      · exact h
      · exact hopen
    rw [List.cons_append, comment?, ih hnone, Option.map_none]
    intro rest hc hrest
    cases s with
    | nil => exact slash_not_blank hw rest hrest
    | cons d s => exact hopen s hc (by rw [(List.cons.inj hrest).1])

theorem scan_open (body : List Char) : scan ('/' :: '*' :: body) = match comment? body with
    | some (newline, n) => (scan (body.drop n)).behind newline (2 + n)
    | none => unterminated 0 (2 + body.length) := by
  rw [scan, if_neg (by decide), if_neg (by decide)]
  refine (if_pos rfl).trans ?_
  cases comment? body <;> rfl

/-- A comment that never ends does not end in the blanks behind it. -/
theorem scan_unterminated {s w : List Char} {start used : Nat}
    (h : scan s = unterminated start used) (hw : ∀ c ∈ w, isBlank c = true) :
    ∃ used', scan (s ++ w) = unterminated start used' := by
  have hparts := scan_trivia s
  rw [h] at hparts
  obtain ⟨gap, body, rfl, rfl, -, hgap⟩ := hparts
  have hnone : comment? body = none := by
    rw [scan_gap hgap, scan_open] at h
    cases hcomment : comment? body with
    | none => rfl
    | some ending =>
      -- another comment would begin further on
      rw [hcomment] at h
      cases hmore : scan (body.drop ending.2) with
      | passed => simp only [hmore] at h; exact nomatch h
      | unterminated start used =>
        simp only [hmore] at h
        have := (Gap.unterminated.inj h).1
        omega
  have hgap' : Trivia ('/' :: '*' :: (body ++ w)) gap := hgap.of_head rfl
  refine ⟨gap.length + (2 + (body ++ w).length), ?_⟩
  rw [List.append_assoc, List.cons_append, List.cons_append, scan_gap hgap', scan_open,
    comment_blanks hnone hw]
  rfl

end Gap

namespace Lexer

variable {l l' : Lexer}

/-- The gap in front of a token is the same with blanks behind the text. -/
theorem gap_append {t s w : List Char} {first : Char} {newline : Bool} {used : Nat}
    (h : Gap.scan t = .passed newline used) (hfirst : t.drop used = first :: s)
    (hw : ∀ c ∈ w, isBlank c = true) : ∃ gap, t = gap ++ first :: s ∧ gap.length = used ∧
      Gap.scan (gap ++ first :: (s ++ w)) = .passed newline used := by
  have hinsert := gap_insert h hfirst hw s.length
  rwa [List.take_length, List.drop_length, List.append_nil] at hinsert

/-- Blanks behind a text. -/
theorem Reads.append_blanks {access : Bool} {ts : List Token} (h : Reads l access ts)
    {w : List Char} (hw : ∀ c ∈ w, isBlank c = true) (hl' : l'.rest = l.rest ++ w)
    (hsame : SameState l l') {n : Nat} (hn : ts.length ≤ n) :
    ∃ ts', Reads l' access ts' ∧ Moved n ts ts' := by
  induction h generalizing l' with
  | comment hgap =>
    obtain ⟨used, hgap'⟩ := Gap.scan_unterminated hgap hw
    exact ⟨_, .comment (hl' ▸ hgap'), .last (.invalid _ _)⟩
  | @ended l access newline used hgap hend =>
    have hparts := Gap.scan_trivia l.rest
    rw [hgap] at hparts
    obtain ⟨gap, rest, hrest, rfl, hgap', -⟩ := hparts
    obtain rfl : rest = [] := by rwa [skip_rest, hrest, List.drop_left] at hend
    have hscan := Gap.scan_gap (hgap'.append_blanks hw)
    rw [List.append_nil, Gap.scan] at hscan
    rw [List.append_nil] at hrest
    refine ⟨_, .ended (by rw [hl', hrest, hscan]; rfl) ?_, .last .eof⟩
    rw [skip_rest, hl', hrest]
    exact List.drop_length
  | failed hgap hfirst hscan =>
    obtain ⟨gap, hrest, rfl, hgap'⟩ := gap_append hgap ((skip_rest _ _).symm.trans hfirst) hw
    obtain ⟨cause, n, hscan'⟩ := scanToken_blanks hw hscan
    rw [hrest, List.append_assoc, List.cons_append] at hl'
    refine ⟨_, .failed (hl' ▸ hgap') ?_ ((hsame.scanToken _ _).trans hscan'), .last (.invalid _ _)⟩
    rw [skip_rest, hl', List.drop_left]
  | @token l access newline used m first s kind ts hgap hfirst hscan hmore ih =>
    have hm := (scanToken_settled _ _ _ _ _ _ hscan).1
    obtain ⟨gap, hrest, rfl, hgap'⟩ := gap_append hgap ((skip_rest _ _).symm.trans hfirst) hw
    rw [hrest, List.append_assoc, List.cons_append] at hl'
    have hfirst' : (l'.skip gap.length).rest = first :: (s ++ w) := by
      rw [skip_rest, hl', List.drop_left]
    have hnext : (((l'.skip gap.length).skip (m + 1)).after kind access).rest =
        (((l.skip gap.length).skip (m + 1)).after kind access).rest ++ w := by
      rw [after_rest hfirst', after_rest hfirst, List.drop_append_of_le_length hm]
    obtain ⟨ts', hts', hmoved⟩ := ih hnext (hsame.token kind access _ _ _ _) (Nat.le_of_succ_le hn)
    have hlive := scanToken_live l.regexAllowed l.braces first s
    rw [hscan] at hlive
    have hscan' := (hsame.scanToken _ _).trans (scanToken_append hw hscan)
    exact ⟨_, .token (hl' ▸ hgap') hfirst' hscan' hts', .live hlive rfl hn (fun _ => rfl) hmoved⟩

end Lexer

/-! ### Blanks in front of a text -/

/-- Tokens with the same faces are moved. -/
theorem Moved.of_faces {n : Nat} {us ts' : List Token} {final : Token}
    (hus : ∀ u ∈ us, u.kind.isTerminal = false) (hfinal : final.kind.isTerminal = true)
    (hn : us.length < n) (hfaces : ts'.map Token.face = (us ++ [final]).map Token.face) :
    Moved n (us ++ [final]) ts' := by
  induction us generalizing ts' with
  | nil =>
    obtain ⟨t', rfl, hface⟩ := List.map_eq_singleton_iff.1 hfaces
    exact .last (.of_eq (congrArg Prod.fst hface) hfinal)
  | cons u us ih =>
    obtain ⟨t', ts', rfl, hface, hmore⟩ := List.map_eq_cons_iff.1 hfaces
    obtain ⟨hu, hus⟩ := List.forall_mem_cons.1 hus
    have hle : (us ++ [final]).length < n := by
      rw [List.length_append]
      exact hn
    exact .live hu (congrArg Prod.fst hface) hle (fun _ => congrArg Prod.snd hface)
      (ih hus (Nat.lt_of_succ_lt hn) hmore)

theorem Token.faceBehind_kind (w : List Char) (t : Token) : (t.faceBehind w).1 = t.kind := by
  unfold faceBehind
  split
  · next h => exact h.symm
  · rfl

/-- Blanks in front of the first of the tokens. -/
theorem Moved.of_faceBehind {us ts₀ ts' : List Token} {t final : Token} {w : List Char}
    (hus : ∀ u ∈ us, u.kind.isTerminal = false) (hfinal : final.kind.isTerminal = true)
    (hts : t :: ts₀ = us ++ [final])
    (hfaces : ts'.map Token.face = t.faceBehind w :: ts₀.map Token.face) :
    Moved (t :: ts₀).length (t :: ts₀) ts' := by
  obtain ⟨t', ts', rfl, hface, hmore⟩ := List.map_eq_cons_iff.1 hfaces
  have hkind : t'.kind = t.kind := (congrArg Prod.fst hface).trans (t.faceBehind_kind w)
  cases us with
  | nil =>
    obtain ⟨rfl, rfl⟩ := List.cons.inj hts
    obtain rfl := List.map_eq_nil_iff.1 hmore
    exact .last (.of_eq hkind hfinal)
  | cons u us =>
    obtain ⟨rfl, rfl⟩ := List.cons.inj hts
    obtain ⟨ht, hus⟩ := List.forall_mem_cons.1 hus
    refine .live ht hkind (Nat.lt_succ_self _) (fun hlt => absurd hlt (Nat.lt_irrefl _)) ?_
    refine .of_faces hus hfinal ?_ hmore
    show us.length < (us ++ [final]).length + 1
    rw [List.length_append]
    omega

/-- The tokens with blanks behind a text. -/
theorem tokenize_append_blanks (s w : String) (hw : ∀ c ∈ w.toList, isBlank c = true) :
    Moved (tokenize s).length (tokenize s) (tokenize (s ++ w)) := by
  have hread := Lexer.reads_tokensFrom (.ofText s.toList) false
  have hrest : (Lexer.ofText (s.toList ++ w.toList)).rest = s.toList ++ w.toList := rfl
  obtain ⟨ts', hts', hmoved⟩ := hread.append_blanks hw hrest ⟨rfl, rfl⟩ (Nat.le_refl _)
  rw [hts'.eq_tokensFrom] at hmoved
  show Moved _ _ ((Lexer.ofText (s ++ w).toList).tokensFrom false).1
  rwa [String.toList_append]

/-- The tokens with blanks in front of a text. -/
theorem tokenize_blanks_append (s w : String) (hw : ∀ c ∈ w.toList, isBlank c = true) :
    Moved (tokenize s).length (tokenize s) (tokenize (w ++ s)) := by
  have hread := Lexer.reads_tokensFrom (.ofText s.toList) false
  obtain ⟨us, final, hinit, hus, hfinal⟩ := tokenize_init s
  have hrest : (Lexer.ofText (w.toList ++ s.toList)).rest = [] ++ (w.toList ++ s.toList) := rfl
  obtain ⟨t, ts₀, ts', hts, -, hts', hfaces⟩ :=
    hread.blanks_in_gap .nil hw (List.nil_append _).symm hrest ⟨rfl, rfl⟩
  have htokens : tokenize s = t :: ts₀ := hts
  have hmoved := Moved.of_faceBehind hus hfinal (htokens.symm.trans hinit) hfaces
  rw [hts'.eq_tokensFrom] at hmoved
  show Moved _ _ ((Lexer.ofText (w ++ s).toList).tokensFrom false).1
  rwa [htokens, String.toList_append]

end TemplateVars
