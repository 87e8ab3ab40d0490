/-
Blanks between tokens.

The main result is `tokenize_insert`: blanks that are put into a text in front of one of
its tokens, or behind one, change no token, and of the tokens only the next one may come to
be in a new line, if a line terminator is among them.

* `Gap.scan_gap` — a gap is passed over, whatever the text behind it;
* `Trivia.append_blanks` — a gap with blanks behind it is a gap;
* `Lexer.Reads.blanks_in_gap` — blanks in the gap before the next token;
* `Lexer.Reads.insert` — blanks further on.

Design notes: tokens are compared by their `face`, since all places behind the blanks are
moved.  A token in front of the blanks is the same because it is so in the text cut there
(`scanToken_take`) and then with blanks behind it (`scanToken_settled`).
-/
import TemplateVars.Proofs.Token.Extension
import TemplateVars.Proofs.Token.Front

namespace TemplateVars

open Text

/-! ### Gaps -/

/-- A gap in front of one text is one in front of each that begins like it. -/
theorem Trivia.of_head {after after' gap : List Char} (h : Trivia after gap)
    (hhead : after'.head? = after.head?) : Trivia after' gap := by
  induction h with
  | nil => exact .nil
  | blank hc _ ih => exact .blank hc ih
  | @lineComment body gap hbody hend _ ih =>
    refine .lineComment hbody (fun c hc => hend c ?_) ih
    rwa [List.head?_append, hhead, ← List.head?_append] at hc
  | blockComment hbody _ ih => exact .blockComment hbody ih

theorem Trivia.of_blanks {w : List Char} (hw : ∀ c ∈ w, isBlank c = true) (after : List Char) :
    Trivia after w := by
  induction w with
  | nil => exact .nil
  | cons c w ih =>
    obtain ⟨hc, hw⟩ := List.forall_mem_cons.1 hw
    exact .blank hc (ih hw)

theorem Trivia.append_blanks {after gap w : List Char} (h : Trivia after gap)
    (hw : ∀ c ∈ w, isBlank c = true) : Trivia after (gap ++ w) := by
  induction h with
  | nil => exact .of_blanks hw after
  | blank hc _ ih => exact .blank hc ih
  | @lineComment body gap hbody hend h ih =>
    cases gap with
    | cons c gap =>
      have hcomment : Trivia after ('/' :: '/' :: (body ++ (c :: gap ++ w))) :=
        .lineComment hbody hend ih
      rwa [List.cons_append, List.cons_append, List.append_assoc]
    | nil =>
      -- the comment goes on up to the first line terminator among the blanks
      have hline : (body ++ w.takeWhile (!isLineTerminator ·)).any isLineTerminator = false := by
        rw [List.any_append, hbody, Bool.false_or, List.any_eq_not_all_not, Bool.not_eq_false']
        exact List.all_takeWhile
      have hrest : ∀ c ∈ w.dropWhile (!isLineTerminator ·), isBlank c = true :=
        fun c hc => hw c ((List.dropWhile_suffix _).subset hc)
      have hstop : AtLineEnd (w.dropWhile (!isLineTerminator ·) ++ after) := by
        intro c hc
        have hdrop := atLineEnd_dropWhile w
        cases hw' : w.dropWhile (!isLineTerminator ·) with
        | nil => rw [hw'] at hc; exact hend c hc
        | cons d more => rw [hw'] at hc hdrop; exact hdrop c hc
      have := Trivia.lineComment hline hstop (.of_blanks hrest after)
      rw [List.append_assoc, List.takeWhile_append_dropWhile] at this
      rwa [List.append_nil]
  | blockComment hbody _ ih =>
    have := Trivia.blockComment hbody ih
    rwa [List.cons_append, List.cons_append, List.append_assoc, List.cons_append, List.cons_append]

namespace Gap

/-- A comment ends at the first `*/`. -/
theorem comment_of_body {body : List Char} (h : ¬['*', '/'] <:+: body ++ ['*'])
    (rest : List Char) :
    comment? (body ++ '*' :: '/' :: rest) = some (body.any isLineTerminator, body.length + 2) := by
  induction body with
  | nil => rfl
  | cons c body ih =>
    rw [List.cons_append, comment?, ih fun hinfix => h (List.infix_cons hinfix)]
    · rfl
    · -- the mark is not here
      rintro more rfl hmore
      refine h (List.IsPrefix.isInfix ?_)
      cases body with
      | nil => exact absurd (List.cons.inj hmore).1 (by decide)
      | cons d body =>
        obtain ⟨rfl, -⟩ := List.cons.inj hmore
        exact ⟨_, rfl⟩

/-- A gap is passed over, whatever the text behind it. -/
theorem scan_gap {rest gap : List Char} (h : Trivia rest gap) :
    scan (gap ++ rest) = (scan rest).behind (gap.any isLineTerminator) gap.length := by
  induction h with
  | nil => exact (behind_zero _).symm
  | @blank c gap hc _ ih =>
    by_cases hline : isLineTerminator c = true
    · rw [List.cons_append, scan_line hline, ih, behind_behind, List.any_cons, hline,
        List.length_cons, Nat.add_comm]
    · rw [List.cons_append, scan_blank hline hc, ih, behind_behind, List.any_cons,
        Bool.eq_false_iff.2 hline, List.length_cons, Nat.add_comm]
  | @lineComment body gap hbody hend _ ih =>
    have hall : ∀ c ∈ body, (!isLineTerminator c) = true := by
      rwa [List.any_eq_not_all_not, Bool.not_eq_false', List.all_eq_true] at hbody
    have hstop : (gap ++ rest).takeWhile (!isLineTerminator ·) = [] := by
      cases hnext : gap ++ rest with
      | nil => rfl
      | cons c more =>
        rw [hnext] at hend
        rw [List.takeWhile_cons_of_neg (by rw [hend c rfl]; decide)]
    have hslash : isLineTerminator '/' = false := by decide
    rw [List.cons_append, List.cons_append, List.append_assoc, scan, if_neg (by decide),
      if_neg (by decide), if_pos rfl]
    simp only [List.takeWhile_append_of_pos hall, hstop, List.append_nil]
    rw [List.drop_left, ih, behind_behind, List.any_cons, List.any_cons, hslash, List.any_append,
      hbody, List.length_cons, List.length_cons, List.length_append]
    congr 1
    omega
  | @blockComment body gap hbody _ ih =>
    have hcomment := comment_of_body hbody (gap ++ rest)
    have hstar : isLineTerminator '*' = false := by decide
    have hslash : isLineTerminator '/' = false := by decide
    have hdrop : (body ++ '*' :: '/' :: (gap ++ rest)).drop (body.length + 2) = gap ++ rest := by
      rw [← List.drop_drop, List.drop_left]
      rfl
    rw [List.cons_append, List.cons_append, List.append_assoc, List.cons_append, List.cons_append,
      scan, if_neg (by decide), if_neg (by decide), if_pos rfl]
    simp only [hcomment]
    rw [hdrop, ih, behind_behind, List.any_cons, List.any_cons, List.any_append, List.any_cons,
      List.any_cons, hslash, hstar, List.length_cons, List.length_cons, List.length_append,
      List.length_cons, List.length_cons]
    congr 1
    omega

/-- What is left behind a gap begins with none. -/
theorem scan_rest {s gap rest : List Char} {newline : Bool} (hs : s = gap ++ rest)
    (hgap : Trivia rest gap) (h : scan s = passed newline gap.length) :
    scan rest = passed false 0 := by
  rw [hs, scan_gap hgap] at h
  have hparts := scan_trivia rest
  cases hrest : scan rest with
  | unterminated start used => rw [hrest] at h; exact nomatch h
  | passed later used =>
    rw [hrest] at h hparts
    obtain ⟨inner, after, -, rfl, -, rfl, -⟩ := hparts
    have hnone : inner = [] := by
      have hlength := (Gap.passed.inj h).2
      exact List.length_eq_zero_iff.1 (Nat.left_eq_add.1 hlength.symm)
    rw [hnone]
    rfl

theorem behind_ne_none (g : Gap) (newline : Bool) {n : Nat} (hn : 0 < n) :
    g.behind newline n ≠ passed false 0 := by
  cases g with
  | unterminated start used => exact nofun
  | passed later used =>
    intro h
    have := (Gap.passed.inj h).2
    omega

/-- No gap begins in front of a character that begins none, if what follows begins as before
or with a blank. -/
theorem scan_none_of_head {c : Char} {s s' : List Char} (h : scan (c :: s) = passed false 0)
    (hs : s'.head? = s.head? ∨ ∀ d ∈ s'.head?, isBlank d = true) :
    scan (c :: s') = passed false 0 := by
  have hline : ¬isLineTerminator c = true := fun hline =>
    behind_ne_none _ _ Nat.one_pos ((scan_line hline s).symm.trans h)
  have hblank : ¬isBlank c = true := fun hblank =>
    behind_ne_none _ _ Nat.one_pos ((scan_blank hline hblank s).symm.trans h)
  by_cases hslash : c = '/'
  · subst hslash
    have hmark : ∀ d, isBlank d = false → ∀ body, s' = d :: body → ∃ inner, s = d :: inner := by
      rintro d hd body rfl
      rcases hs with hs | hs
      · exact (List.head?_eq_some_iff.1 hs.symm)
      · exact absurd (hd.symm.trans (hs d rfl)) (by decide)
    rw [scan, if_neg hline, if_neg hblank, if_pos rfl]
    · intro body heq
      obtain ⟨inner, rfl⟩ := hmark '/' (by decide) body heq
      rw [scan, if_neg hline, if_neg hblank, if_pos rfl] at h
      exact behind_ne_none _ _ (by omega) h
    · intro body heq
      obtain ⟨inner, rfl⟩ := hmark '*' (by decide) body heq
      rw [scan, if_neg hline, if_neg hblank, if_pos rfl] at h
      split at h
      · exact behind_ne_none _ _ (by omega) h
      · cases h
  · exact scan_none hline hblank hslash s'

end Gap

/-! ### Faces -/

/-- What a token is and whether it is in a new line, wherever it stands. -/
def Token.face (t : Token) : TokenKind × Bool :=
  (t.kind, t.newlineBefore)

/-- The face of a token that has some more blanks in front of it.  A failure is never said to
be in a new line. -/
def Token.faceBehind (w : List Char) (t : Token) : TokenKind × Bool :=
  match t.kind with
  | .invalid cause => (.invalid cause, t.newlineBefore)
  | kind => (kind, t.newlineBefore || w.any isLineTerminator)

theorem Token.faceBehind_of_ne {t : Token} (h : ∀ cause, t.kind ≠ .invalid cause)
    (w : List Char) : t.faceBehind w = (t.kind, t.newlineBefore || w.any isLineTerminator) := by
  unfold faceBehind
  split
  · next cause hkind => exact absurd hkind (h cause)
  · rfl

namespace Lexer

theorem ne_invalid_of_live {kind : TokenKind} (h : kind.isTerminal = false) (cause : LexError) :
    kind ≠ .invalid cause := by
  rintro rfl
  exact nomatch h

/-- Whether two lexers have read the same tokens, as far as that matters for the next one. -/
structure SameState (l l' : Lexer) : Prop where
  regexAllowed : l'.regexAllowed = l.regexAllowed
  braces : l'.braces = l.braces

variable {l l' : Lexer}

theorem SameState.token (h : SameState l l') (kind : TokenKind) (access : Bool) (n m n' m' : Nat) :
    SameState (((l.skip n).skip m).after kind access) (((l'.skip n').skip m').after kind access)
    where
  regexAllowed := rfl
  braces := by
    show kind.bracesAfter ((l'.skip n').skip m').braces =
      kind.bracesAfter ((l.skip n).skip m).braces
    rw [skip_braces, skip_braces, skip_braces, skip_braces, h.braces]

theorem SameState.scanToken (h : SameState l l') (first : Char) (s : List Char) :
    scanToken l'.regexAllowed l'.braces first s = scanToken l.regexAllowed l.braces first s := by
  rw [h.regexAllowed, h.braces]

/-- The same text elsewhere is read as the same tokens. -/
theorem Reads.elsewhere {access : Bool} {ts : List Token} (h : Reads l access ts)
    (hsame : SameState l l') (hrest : l'.rest = l.rest) :
    ∃ ts', Reads l' access ts' ∧ ts'.map Token.face = ts.map Token.face := by
  induction h generalizing l' with
  | comment hgap => exact ⟨_, .comment (hrest ▸ hgap), rfl⟩
  | ended hgap hend =>
    refine ⟨_, .ended (hrest ▸ hgap) ?_, rfl⟩
    rwa [skip_rest, hrest, ← skip_rest]
  | failed hgap hfirst hscan =>
    refine ⟨_, .failed (hrest ▸ hgap) ?_ ((hsame.scanToken _ _).trans hscan), rfl⟩
    rwa [skip_rest, hrest, ← skip_rest]
  | @token l access newline used n first s kind ts hgap hfirst hscan _ ih =>
    have hnext := hsame.token kind access used (n + 1) used (n + 1)
    obtain ⟨ts', hts', hfaces⟩ := ih hnext (by
      show ((l'.skip used).skip (n + 1)).rest = ((l.skip used).skip (n + 1)).rest
      rw [skip_rest, skip_rest, skip_rest, skip_rest, hrest])
    refine ⟨_, .token (hrest ▸ hgap) ?_ ((hsame.scanToken _ _).trans hscan) hts', ?_⟩
    · rwa [skip_rest, hrest, ← skip_rest]
    · rw [List.map_cons, List.map_cons, hfaces]
      rfl

/-- Blanks in the gap in front of the next token. -/
theorem Reads.blanks_in_gap {access : Bool} {ts : List Token} (h : Reads l access ts)
    {gap rest w : List Char} (hgap : Trivia rest gap) (hw : ∀ c ∈ w, isBlank c = true)
    (hl : l.rest = gap ++ rest) (hl' : l'.rest = gap ++ (w ++ rest)) (hsame : SameState l l') :
    ∃ t ts₀ ts', ts = t :: ts₀ ∧ l.position.offset + gap.length ≤ t.start.offset ∧
      Reads l' access ts' ∧ ts'.map Token.face = t.faceBehind w :: ts₀.map Token.face := by
  have hscan : Gap.scan l.rest = (Gap.scan rest).behind (gap.any isLineTerminator) gap.length := by
    rw [hl, Gap.scan_gap hgap]
  have hscan' : Gap.scan l'.rest = (Gap.scan rest).behind
      (gap.any isLineTerminator || w.any isLineTerminator) (gap.length + w.length) := by
    rw [hl', ← List.append_assoc, Gap.scan_gap (hgap.append_blanks hw), List.any_append,
      List.length_append]
  have hle : ∀ n, gap.length + n ≤ l.rest.length →
      l.position.offset + gap.length ≤ (l.skip (gap.length + n)).position.offset := fun n hn => by
    rw [skip_offset]
    omega
  have hdrop : ∀ n, (l'.skip (gap.length + w.length + n)).rest =
      (l.skip (gap.length + n)).rest := by
    intro n
    rw [skip_rest, skip_rest, hl, hl', ← List.append_assoc, ← List.length_append, ← List.drop_drop,
      ← List.drop_drop, List.drop_left, List.drop_left]
  cases hrest : Gap.scan rest with
  | unterminated start used =>
    rw [hrest] at hscan hscan'
    cases h with
    | comment hgap₀ =>
      cases hscan.symm.trans hgap₀
      have hparts := Gap.scan_trivia l.rest
      rw [hscan] at hparts
      obtain ⟨inner, more, hinner, hstart, -⟩ := hparts
      refine ⟨_, _, _, rfl, hle start ?_, .comment hscan', rfl⟩
      rw [hstart, hinner, List.length_append]
      exact Nat.le_add_right _ _
    | ended hgap₀ => exact nomatch hscan.symm.trans hgap₀
    | failed hgap₀ => exact nomatch hscan.symm.trans hgap₀
    | token hgap₀ => exact nomatch hscan.symm.trans hgap₀
  | passed later used =>
    rw [hrest] at hscan hscan'
    have hused := hle used (Gap.used_le hscan)
    -- a line is crossed in the blanks or where one was crossed before
    have hnewline : (gap.any isLineTerminator || w.any isLineTerminator || later) =
        (gap.any isLineTerminator || later || w.any isLineTerminator) := Bool.or_right_comm ..
    cases h with
    | comment hgap₀ => exact nomatch hscan.symm.trans hgap₀
    | ended hgap₀ hend =>
      cases hscan.symm.trans hgap₀
      refine ⟨_, _, _, rfl, hused, .ended hscan' ((hdrop used).trans hend), ?_⟩
      rw [List.map_singleton, Token.face, hnewline]
      rfl
    | failed hgap₀ hfirst hread =>
      cases hscan.symm.trans hgap₀
      exact ⟨_, _, _, rfl, hused, .failed hscan' ((hdrop used).trans hfirst)
        ((hsame.scanToken _ _).trans hread), rfl⟩
    | @token _ _ _ _ n first s kind ts hgap₀ hfirst hread hmore =>
      cases hscan.symm.trans hgap₀
      obtain ⟨ts', hts', hfaces⟩ := hmore.elsewhere
        (hsame.token kind access _ (n + 1) (gap.length + w.length + used) (n + 1)) (by
          show ((l'.skip _).skip (n + 1)).rest = ((l.skip _).skip (n + 1)).rest
          rw [skip_rest (n + 1), skip_rest (n + 1), hdrop])
      refine ⟨_, _, _, rfl, hused, .token hscan' ((hdrop used).trans hfirst)
        ((hsame.scanToken _ _).trans hread) hts', ?_⟩
      have hlive := scanToken_live l.regexAllowed l.braces first s
      rw [hread] at hlive
      have hne := ne_invalid_of_live (show kind.isTerminal = false from hlive)
      rw [List.map_cons, hfaces, Token.faceBehind_of_ne hne, Token.face, hnewline]

/-! ### Blanks further on -/

/-- A text with blanks put in begins as before or with a blank. -/
theorem head_insert {w : List Char} (hw : ∀ c ∈ w, isBlank c = true) (s : List Char) (m : Nat) :
    (s.take m ++ (w ++ s.drop m)).head? = s.head? ∨
      ∀ d ∈ (s.take m ++ (w ++ s.drop m)).head?, isBlank d = true := by
  cases w with
  | nil =>
    refine .inl ?_
    rw [List.nil_append, List.take_append_drop]
  | cons c w =>
    have hc := (List.forall_mem_cons.1 hw).1
    cases hfront : s.take m with
    | nil => exact .inr fun d hd => (Option.some.inj hd) ▸ hc
    | cons d front =>
      obtain ⟨more, rfl, -⟩ := cons_of_take_eq hfront
      exact .inl rfl

/-- The gap in front of a token is the same with blanks put in behind the first character of
the token. -/
theorem gap_insert {t s w : List Char} {first : Char} {newline : Bool} {used : Nat}
    (h : Gap.scan t = .passed newline used) (hfirst : t.drop used = first :: s)
    (hw : ∀ c ∈ w, isBlank c = true) (m : Nat) : ∃ gap, t = gap ++ first :: s ∧
      gap.length = used ∧
        Gap.scan (gap ++ first :: (s.take m ++ (w ++ s.drop m))) = .passed newline used := by
  have hparts := Gap.scan_trivia t
  rw [h] at hparts
  obtain ⟨gap, rest, ht, rfl, htrivia, rfl, -⟩ := hparts
  obtain rfl : rest = first :: s := by rwa [ht, List.drop_left] at hfirst
  have hnone := Gap.scan_none_of_head (Gap.scan_rest ht htrivia h) (head_insert hw s m)
  refine ⟨gap, ht, rfl, ?_⟩
  have htrivia' : Trivia (first :: (s.take m ++ (w ++ s.drop m))) gap := htrivia.of_head rfl
  rw [Gap.scan_gap htrivia', hnone, Gap.behind, Bool.or_false, Nat.add_zero]

/-- A token is the same with blanks put in behind it, but not into a fraction. -/
theorem scanToken_insert {regexAllowed : Bool} {braces : List Brace} {first : Char}
    {s w : List Char} {kind : TokenKind} {n m : Nat} (hw : ∀ c ∈ w, isBlank c = true)
    (h : scanToken regexAllowed braces first s = .ok kind n) (hm : n ≤ m)
    (hcut : n < m → ¬CutsFraction s m) :
    scanToken regexAllowed braces first (s.take m ++ (w ++ s.drop m)) = .ok kind n := by
  cases w with
  | nil => rwa [List.nil_append, List.take_append_drop]
  | cons c w =>
    have hfront := scanToken_take h hm hcut
    have hc := (List.forall_mem_cons.1 hw).1
    exact (scanToken_settled regexAllowed braces first _ _ _ hfront).2 c (w ++ s.drop m) hc

/-- What is left behind a token. -/
theorem after_rest {l : Lexer} {first : Char} {s : List Char} (hfirst : l.rest = first :: s)
    (n : Nat) (kind : TokenKind) (access : Bool) :
    ((l.skip (n + 1)).after kind access).rest = s.drop n := by
  show (l.skip (n + 1)).rest = _
  rw [skip_rest, hfirst, List.drop_succ_cons]

/-- Behind a token the place is that of its last character, and one further on. -/
theorem stop_offset {l : Lexer} {used n : Nat} {first : Char} {s : List Char}
    (hused : used ≤ l.rest.length) (hfirst : (l.skip used).rest = first :: s) (hn : n ≤ s.length) :
    ((l.skip used).skip (n + 1)).position.offset = l.position.offset + used + (n + 1) := by
  rw [skip_offset, skip_offset, hfirst, List.length_cons]
  omega

end Lexer

/-- Whether a place of a text is in front of the first character of one of its tokens or behind
the last one, failures not counted for the latter. -/
def AtToken (ts : List Token) (i : Nat) : Prop :=
  ∃ t ∈ ts, i = t.start.offset ∨ i = t.stop ∧ ∀ cause, t.kind ≠ .invalid cause

/-- Whether tokens are the same as others, except that there are more blanks in front of the
first one behind some place. -/
def Spaced (w : List Char) (i : Nat) (ts ts' : List Token) : Prop :=
  ∃ us t vs, ts = us ++ t :: vs ∧ (∀ u ∈ us, u.stop ≤ i) ∧ i ≤ t.start.offset ∧
    ts'.map Token.face = us.map Token.face ++ t.faceBehind w :: vs.map Token.face

theorem Spaced.cons {w : List Char} {i : Nat} {t t' : Token} {ts ts' : List Token}
    (h : Spaced w i ts ts') (ht : t.stop ≤ i) (hface : t'.face = t.face) :
    Spaced w i (t :: ts) (t' :: ts') := by
  obtain ⟨us, u, vs, rfl, hus, hu, hfaces⟩ := h
  refine ⟨t :: us, u, vs, rfl, List.forall_mem_cons.2 ⟨ht, hus⟩, hu, ?_⟩
  rw [List.map_cons, hfaces, hface]
  rfl

namespace Lexer

variable {l l' : Lexer} {access : Bool}

/-- Tokens are read in the order in which they stand. -/
theorem Reads.offset_le {ts : List Token} (h : Reads l access ts) {t : Token} (ht : t ∈ ts) :
    l.position.offset ≤ t.start.offset ∧ t.start.offset ≤ t.stop := by
  have hskip : ∀ (l : Lexer) n, l.position.offset ≤ (l.skip n).position.offset := fun l n => by
    rw [skip_offset]
    exact Nat.le_add_right _ _
  induction h with
  | @comment l access start used hgap =>
    obtain rfl := List.mem_singleton.1 ht
    have hparts := Gap.scan_trivia l.rest
    rw [hgap] at hparts
    obtain ⟨gap, rest, hrest, rfl, rfl, -⟩ := hparts
    refine ⟨hskip _ _, ?_⟩
    show (l.skip _).position.offset ≤ (l.skip _).position.offset
    rw [skip_offset, skip_offset]
    omega
  | ended =>
    obtain rfl := List.mem_singleton.1 ht
    exact ⟨hskip _ _, Nat.le_refl _⟩
  | failed =>
    obtain rfl := List.mem_singleton.1 ht
    exact ⟨hskip _ _, hskip _ _⟩
  | token _ _ _ _ ih =>
    rcases List.mem_cons.1 ht with rfl | ht
    · exact ⟨hskip _ _, hskip _ _⟩
    · obtain ⟨hle, hstop⟩ := ih ht
      exact ⟨Nat.le_trans (Nat.le_trans (hskip _ _) (hskip _ _)) hle, hstop⟩

/-- No token begins or ends between a point and a digit that follows it at once. -/
theorem Reads.not_at_fraction {ts : List Token} (h : Reads l access ts) {s : List Char}
    (hrest : l.rest = '.' :: s) (hdigit : Numeral.startsWithDigit 10 s = true) :
    ¬AtToken ts (l.position.offset + 1) := by
  have hgap : Gap.scan l.rest = .passed false 0 := by
    rw [hrest]
    exact Gap.scan_none (by decide) (by decide) (by decide) s
  rintro ⟨t, ht, hplace⟩
  cases h with
  | comment hgap' => exact nomatch hgap.symm.trans hgap'
  | ended hgap' hend =>
    cases hgap.symm.trans hgap'
    exact nomatch hrest.symm.trans hend
  | failed hgap' =>
    cases hgap.symm.trans hgap'
    obtain rfl := List.mem_singleton.1 ht
    rcases hplace with hplace | ⟨-, hne⟩
    · exact Nat.succ_ne_self _ hplace
    · exact hne _ rfl
  | @token _ _ _ _ n first s' kind ts hgap' hfirst hscan hmore =>
    cases hgap.symm.trans hgap'
    obtain ⟨rfl, rfl⟩ := List.cons.inj (hrest.symm.trans hfirst)
    -- the number goes on behind the point
    have hnumber : Numeral.scan '.' s = .ok kind n := by
      have hbrace : ¬('.' = '}' ∧ l.braces.head? = some .substitution) := fun h =>
        absurd h.1 (by decide)
      rwa [scanToken, if_neg hbrace, if_neg (by decide), if_neg (by decide),
        if_pos (.inr ⟨rfl, hdigit⟩)] at hscan
    have hpos := Numeral.scan_point_pos hdigit hnumber
    have hstop := stop_offset (Nat.zero_le _) hfirst (Numeral.scan_le hnumber)
    rcases List.mem_cons.1 ht with rfl | ht
    · rcases hplace with hplace | ⟨hplace, -⟩
      · exact Nat.succ_ne_self _ hplace
      · have := hplace.trans hstop
        omega
    · obtain ⟨hle, hle'⟩ := hmore.offset_le ht
      have hle : ((l.skip 0).skip (n + 1)).position.offset ≤ t.start.offset := hle
      rcases hplace with hplace | ⟨hplace, -⟩
      · omega
      · omega

/-- In front of the next token stands a gap. -/
theorem Reads.gap_first {ts : List Token} (h : Reads l access ts) {t : Token}
    (ht : t ∈ ts.head?) : ∃ gap rest, l.rest = gap ++ rest ∧ Trivia rest gap ∧
      t.start.offset = l.position.offset + gap.length := by
  have hparts := Gap.scan_trivia l.rest
  have hskip : ∀ {gap rest : List Char}, l.rest = gap ++ rest →
      (l.skip gap.length).position.offset = l.position.offset + gap.length := by
    intro gap rest hrest
    rw [skip_offset, hrest, List.length_append, Nat.min_eq_left (Nat.le_add_right _ _)]
  have passed : ∀ {newline used}, Gap.scan l.rest = .passed newline used →
      (l.skip used).position = t.start → ∃ gap rest, l.rest = gap ++ rest ∧ Trivia rest gap ∧
        t.start.offset = l.position.offset + gap.length := by
    intro newline used hgap hstart
    rw [hgap] at hparts
    obtain ⟨gap, rest, hrest, rfl, htrivia, -⟩ := hparts
    exact ⟨gap, rest, hrest, htrivia, hstart ▸ hskip hrest⟩
  cases h with
  | comment hgap =>
    cases ht
    rw [hgap] at hparts
    obtain ⟨gap, rest, hrest, rfl, -, htrivia⟩ := hparts
    exact ⟨gap, _, hrest, htrivia, hskip hrest⟩
  | ended hgap => cases ht; exact passed hgap rfl
  | failed hgap => cases ht; exact passed hgap rfl
  | token hgap => cases ht; exact passed hgap rfl

/-- Blanks in front of the next token, or of the gap there. -/
theorem Reads.insert_first {ts : List Token} (h : Reads l access ts) {w : List Char}
    (hw : ∀ c ∈ w, isBlank c = true) {k : Nat}
    (hat : k = 0 ∨ ∃ t ∈ ts.head?, l.position.offset + k = t.start.offset)
    (hl' : l'.rest = l.rest.take k ++ (w ++ l.rest.drop k)) (hsame : SameState l l') :
    ∃ ts', Reads l' access ts' ∧ Spaced w (l.position.offset + k) ts ts' := by
  obtain ⟨gap, rest, hrest, hgap, rfl⟩ : ∃ gap rest, l.rest = gap ++ rest ∧ Trivia rest gap ∧
      k = gap.length := by
    rcases hat with rfl | ⟨t, ht, hstart⟩
    · exact ⟨[], l.rest, rfl, .nil, rfl⟩
    · obtain ⟨gap, rest, hrest, hgap, hoffset⟩ := h.gap_first ht
      exact ⟨gap, rest, hrest, hgap, Nat.add_left_cancel (hstart.trans hoffset)⟩
  rw [hrest, List.take_left, List.drop_left] at hl'
  obtain ⟨t, vs, ts', rfl, hle, hread, hfaces⟩ := h.blanks_in_gap hgap hw hrest hl' hsame
  exact ⟨ts', hread, [], t, vs, rfl, nofun, hle, hfaces⟩

/-- A place further on, seen from behind the next token. -/
theorem Reads.place_behind {used n k : Nat} {kind : TokenKind}
    {newline : Bool} {ts : List Token}
    (hmore : Reads (((l.skip used).skip (n + 1)).after kind access) kind.isAccess ts)
    (hoffset : ((l.skip used).skip (n + 1)).position.offset = l.position.offset + used + (n + 1))
    (hat : AtToken (⟨kind, (l.skip used).position, ((l.skip used).skip (n + 1)).position.offset,
      newline⟩ :: ts) (l.position.offset + k))
    (hstart : ¬l.position.offset + k = (l.skip used).position.offset) :
    ∃ j, k = used + (n + j + 1) ∧
      (j = 0 ∨ AtToken ts (((l.skip used).skip (n + 1)).position.offset + j)) := by
  obtain ⟨t, ht, hplace⟩ := hat
  rcases List.mem_cons.1 ht with rfl | ht
  · have hstop := (hplace.resolve_left hstart).1.trans hoffset
    exact ⟨0, by omega, .inl rfl⟩
  · have hle : ((l.skip used).skip (n + 1)).position.offset ≤ t.start.offset :=
      (hmore.offset_le ht).1
    have hle' := (hmore.offset_le ht).2
    obtain ⟨j, hj⟩ : ∃ j, l.position.offset + k =
        ((l.skip used).skip (n + 1)).position.offset + j := by
      refine Nat.exists_eq_add_of_le ?_
      rcases hplace with hplace | ⟨hplace, -⟩
      · omega
      · omega
    exact ⟨j, by omega, .inr ⟨t, ht, hj ▸ hplace⟩⟩

/-- A place at a token is not within a fraction: the point and the digit behind it would belong
to the next token. -/
theorem Reads.not_cutsFraction {ts : List Token} (h : Reads l access ts) {s : List Char}
    {n k : Nat} (hrest : l.rest = s.drop n) (hat : k = 0 ∨ AtToken ts (l.position.offset + k)) :
    n < n + k → ¬CutsFraction s (n + k) := by
  rintro hlt ⟨hpoint, hdigit⟩
  have hone : n + k = 1 := by
    have hlength := congrArg List.length hpoint
    rw [List.length_take, List.length_singleton] at hlength
    have hne : s.drop (n + k) ≠ [] := by
      intro hnil
      rw [hnil] at hdigit
      exact nomatch hdigit
    have := mt List.drop_eq_nil_iff.2 hne
    omega
  obtain ⟨rfl, rfl⟩ : n = 0 ∧ k = 1 := by omega
  refine h.not_at_fraction ?_ hdigit (hat.resolve_left Nat.one_ne_zero)
  rw [hrest, List.drop_zero]
  conv_lhs => rw [← List.take_append_drop 1 s]
  exact congrArg (· ++ s.drop 1) hpoint

/-- Blanks in front of a token or behind one. -/
theorem Reads.insert {ts : List Token} (h : Reads l access ts) {w : List Char}
    (hw : ∀ c ∈ w, isBlank c = true) {k : Nat} (hk : k ≤ l.rest.length)
    (hat : k = 0 ∨ AtToken ts (l.position.offset + k))
    (hl' : l'.rest = l.rest.take k ++ (w ++ l.rest.drop k)) (hsame : SameState l l') :
    ∃ ts', Reads l' access ts' ∧ Spaced w (l.position.offset + k) ts ts' := by
  induction h generalizing l' k with
  | comment hgap =>
    refine Reads.insert_first (.comment hgap) hw (hat.imp id ?_) hl' hsame
    rintro ⟨t, ht, hplace⟩
    obtain rfl := List.mem_singleton.1 ht
    exact ⟨_, rfl, hplace.resolve_right fun h => h.2 _ rfl⟩
  | ended hgap hend =>
    refine Reads.insert_first (.ended hgap hend) hw (hat.imp id ?_) hl' hsame
    rintro ⟨t, ht, hplace⟩
    obtain rfl := List.mem_singleton.1 ht
    exact ⟨_, rfl, hplace.elim id And.left⟩
  | failed hgap hfirst hscan =>
    refine Reads.insert_first (.failed hgap hfirst hscan) hw (hat.imp id ?_) hl' hsame
    rintro ⟨t, ht, hplace⟩
    obtain rfl := List.mem_singleton.1 ht
    exact ⟨_, rfl, hplace.resolve_right fun h => h.2 _ rfl⟩
  | @token l access newline used n first s kind ts hgap hfirst hscan hmore ih =>
    -- either the blanks are in the gap, or the place is behind the token
    by_cases hbehind : k = 0 ∨ l.position.offset + k = (l.skip used).position.offset
    · exact (Reads.token hgap hfirst hscan hmore).insert_first hw
        (hbehind.imp id fun h => ⟨_, rfl, h⟩) hl' hsame
    obtain ⟨hzero, hstart⟩ := not_or.1 hbehind
    have hn := (scanToken_settled _ _ _ _ _ _ hscan).1
    have hoffset := stop_offset (Gap.used_le hgap) hfirst hn
    obtain ⟨k, rfl, hat'⟩ := hmore.place_behind hoffset (hat.resolve_left hzero) hstart
    have hnext := after_rest hfirst n kind access
    -- the token is the same with what comes behind it
    have hscan' := scanToken_insert hw hscan (Nat.le_add_right n k)
      (hmore.not_cutsFraction hnext hat')
    obtain ⟨gap, hrest, rfl, hgap'⟩ :=
      gap_insert hgap ((skip_rest _ _).symm.trans hfirst) hw (n + k)
    rw [hrest, List.take_length_add_append, List.drop_length_add_append, List.take_succ_cons,
      List.drop_succ_cons, List.append_assoc, List.cons_append] at hl'
    have hfirst' : (l'.skip gap.length).rest =
        first :: (s.take (n + k) ++ (w ++ s.drop (n + k))) := by
      rw [skip_rest, hl', List.drop_left]
    have hnext' : (((l'.skip gap.length).skip (n + 1)).after kind access).rest =
        (s.drop n).take k ++ (w ++ (s.drop n).drop k) := by
      have hlength : n ≤ (s.take (n + k)).length := by
        rw [List.length_take]
        omega
      rw [after_rest hfirst', List.drop_append_of_le_length hlength, List.drop_take,
        Nat.add_sub_cancel_left, List.drop_drop]
    have hk' : k ≤ (s.drop n).length := by
      rw [hrest, List.length_append, List.length_cons] at hk
      rw [List.length_drop]
      omega
    obtain ⟨ts', hts', hspaced⟩ := ih (hnext ▸ hk') hat' (hnext ▸ hnext')
      (hsame.token kind access _ _ _ _)
    refine ⟨_, .token (hl' ▸ hgap') hfirst' ((hsame.scanToken _ _).trans hscan') hts', ?_⟩
    have hplace : l.position.offset + (gap.length + (n + k + 1)) =
        ((l.skip gap.length).skip (n + 1)).position.offset + k := by omega
    rw [hplace]
    exact hspaced.cons (Nat.le_add_right _ _) rfl

/-- No token goes on behind the text. -/
theorem Reads.stop_le {ts : List Token} (h : Reads l access ts) {t : Token} (ht : t ∈ ts) :
    t.stop ≤ l.position.offset + l.rest.length := by
  have hskip : ∀ (l : Lexer) n, (l.skip n).position.offset + (l.skip n).rest.length =
      l.position.offset + l.rest.length := fun l n => by
    rw [skip_offset, skip_rest, List.length_drop]
    omega
  have hle : ∀ (l : Lexer) n, (l.skip n).position.offset ≤ l.position.offset + l.rest.length :=
    fun l n => hskip l n ▸ Nat.le_add_right _ _
  induction h with
  | comment | ended =>
    obtain rfl := List.mem_singleton.1 ht
    exact hle _ _
  | failed =>
    obtain rfl := List.mem_singleton.1 ht
    exact hskip _ _ ▸ hle _ _
  | token _ _ _ _ ih =>
    rcases List.mem_cons.1 ht with rfl | ht
    · exact hskip _ _ ▸ hle _ _
    · exact Nat.le_trans (ih ht) (Nat.le_of_eq ((hskip _ _).trans (hskip _ _)))

end Lexer

/-- Blanks in front of a token or behind one leave all tokens as they are, except that the next
one is in a new line if a line terminator is among them. -/
theorem tokenize_insert (source w : String) (i : Nat) (hw : ∀ c ∈ w.toList, isBlank c = true)
    (hi : AtToken (tokenize source) i) : Spaced w.toList i (tokenize source)
      (tokenize (String.ofList (source.toList.take i ++ (w.toList ++ source.toList.drop i)))) := by
  have hread := Lexer.reads_tokensFrom (.ofText source.toList) false
  have hzero : (Lexer.ofText source.toList).position.offset + i = i := Nat.zero_add i
  have hle : i ≤ source.toList.length := by
    obtain ⟨t, ht, hplace⟩ := hi
    have hstop := hread.stop_le ht
    have hstart := (hread.offset_le ht).2
    rw [show (Lexer.ofText source.toList).position.offset + _ = _ from Nat.zero_add _] at hstop
    rcases hplace with rfl | ⟨rfl, -⟩
    · exact Nat.le_trans hstart hstop
    · exact hstop
  have hrest : (Lexer.ofText (source.toList.take i ++ (w.toList ++ source.toList.drop i))).rest =
      source.toList.take i ++ (w.toList ++ source.toList.drop i) := rfl
  obtain ⟨ts', hts', hspaced⟩ := hread.insert hw hle (.inr (hzero.symm ▸ hi)) hrest ⟨rfl, rfl⟩
  rw [hzero, hts'.eq_tokensFrom] at hspaced
  rwa [tokenize, tokenize, String.toList_ofList]

/-- A question mark is told from `?.` by the digit behind the point, which stays where it is. -/
theorem tokenize_insert_fraction :
    (∀ c ∈ "\n".toList, isBlank c = true) ∧ AtToken (tokenize "a?.5:b") 2 ∧
      Spaced "\n".toList 2 (tokenize "a?.5:b") (tokenize "a?\n.5:b") := by
  have hblank : ∀ c ∈ "\n".toList, isBlank c = true := List.all_eq_true.1 (by decide)
  have hmark : ⟨.punct .question, ⟨1, 1, 2⟩, 2, false⟩ ∈ tokenize "a?.5:b" := by decide +kernel
  have hat : AtToken (tokenize "a?.5:b") 2 := ⟨_, hmark, .inr ⟨rfl, nofun⟩⟩
  exact ⟨hblank, hat, tokenize_insert "a?.5:b" "\n" 2 hblank hat⟩

end TemplateVars
