/-
Passes over a longer text.

The main result is `tokenize_append`: if a text is read up to its end, the same tokens
are read from a longer one in which a separator follows in a line of its own, and the
separator is the next token, whatever stands behind it.

* `separators` — the marks that end an expression whatever it is;
* `Gap.scan_append` — a gap that ends within the text is the same, and one that reaches
  its end goes on behind it;
* `Lexer.Extends` — two lexers, the second one with more text ahead;
* `Lexer.Extends.token`, `Lexer.Extends.ended` — what the second one reads next, within
  the text and at its end.

Design notes: a line terminator is needed to end a comment, any other blank would do for
tokens.  Lines and columns agree as long as there is text ahead; at its end they do
not, if that is a CR and a LF follows, but no token begins there.
-/
import TemplateVars.Proofs.Token.Braces
import TemplateVars.Proofs.Token.Prefix

namespace TemplateVars

open Text

/-! ### Gaps -/

namespace Gap

theorem behind_behind (g : Gap) (newline later : Bool) (n m : Nat) :
    (g.behind later m).behind newline n = g.behind (newline || later) (n + m) := by
  cases g with
  | passed last k => simp only [behind, Bool.or_assoc, Nat.add_assoc]
  | unterminated start used => simp only [behind, Nat.add_assoc]

theorem behind_zero (g : Gap) : g.behind false 0 = g := by
  cases g <;> simp [behind]

/-- How a gap goes on if a text is put behind the one it was found in: only if it
reached the end of that. -/
def Resumed (s e : List Char) : Gap → Prop
  | passed newline used => scan (s ++ e) =
      if used < s.length then passed newline used else (scan e).behind newline used
  | unterminated _ _ => True

theorem Resumed.behind {s e : List Char} {g : Gap} (h : g.Resumed s e) (first : List Char)
    (newline : Bool)
    (hscan : scan (first ++ (s ++ e)) = (scan (s ++ e)).behind newline first.length) :
    (g.behind newline first.length).Resumed (first ++ s) e := by
  cases g with
  | unterminated => trivial
  | passed later used =>
    show scan (first ++ s ++ e) = _
    rw [List.append_assoc, hscan, show scan (s ++ e) = _ from h, List.length_append]
    by_cases hlt : used < s.length
    · rw [if_pos hlt, if_pos (Nat.add_lt_add_left hlt _)]
      rfl
    · rw [if_neg hlt, if_neg fun h => hlt (Nat.lt_of_add_lt_add_left h), behind_behind]

theorem comment_append {s : List Char} {r : Bool × Nat} (h : comment? s = some r) (e : List Char) :
    comment? (s ++ e) = some r := by
  obtain ⟨newline, n⟩ := r
  induction s using comment?.induct generalizing newline n with
  | case1 => cases h
  | case2 rest => exact h
  | case3 c rest hc ih =>
    rw [comment?, Option.map_eq_some_iff] at h
    · obtain ⟨⟨later, m⟩, hrest, heq⟩ := h
      cases heq
      rw [List.cons_append, comment?, ih _ _ hrest]
      · rfl
      · rintro after rfl hafter
        cases rest with
        | nil => cases hrest
        | cons d rest =>
          obtain ⟨rfl, -⟩ := List.cons.inj hafter
          exact hc rest rfl rfl
    · exact hc

theorem used_le {s : List Char} {newline : Bool} {used : Nat} (h : scan s = passed newline used) :
    used ≤ s.length := by
  have hparts := scan_trivia s
  rw [h] at hparts
  obtain ⟨gap, rest, rfl, rfl, -⟩ := hparts
  rw [List.length_append]
  exact Nat.le_add_right _ _

theorem comment_le {s : List Char} {newline : Bool} {n : Nat}
    (h : comment? s = some (newline, n)) : n ≤ s.length := by
  obtain ⟨body, rest, rfl, rfl, -, -⟩ := comment_body h
  simp only [List.length_append, List.length_cons]
  omega

theorem scan_line {c : Char} (hline : isLineTerminator c = true) (rest : List Char) :
    scan (c :: rest) = (scan rest).behind true 1 := by
  rw [scan.eq_def]
  exact if_pos hline

theorem scan_blank {c : Char} (hline : ¬isLineTerminator c = true) (hblank : isBlank c = true)
    (rest : List Char) : scan (c :: rest) = (scan rest).behind false 1 := by
  rw [scan.eq_def]
  exact (if_neg hline).trans (if_pos hblank)

/-- No gap begins with a character other than a blank and a slash. -/
theorem scan_none {c : Char} (hline : ¬isLineTerminator c = true) (hblank : ¬isBlank c = true)
    (hslash : ¬c = '/') (rest : List Char) : scan (c :: rest) = passed false 0 := by
  rw [scan.eq_def]
  exact (if_neg hline).trans ((if_neg hblank).trans (if_neg hslash))

/-- A gap that ends within a text is the same whatever line follows; one that reaches
the end of the text goes on behind it. -/
theorem scan_append {c : Char} (hc : isLineTerminator c = true) (s e : List Char) :
    (scan s).Resumed s (c :: e) := by
  fun_induction scan s with
  | case1 =>
    refine Eq.trans ?_ (if_neg (Nat.lt_irrefl _)).symm
    exact (behind_zero _).symm
  | case2 d rest hline ih => exact ih.behind [d] true (scan_line hline _)
  | case3 d rest hline hblank ih => exact ih.behind [d] false (scan_blank hline hblank _)
  | case4 body line hline hblank ih =>
    have hbody : line ++ body.drop line.length = body := by
      rw [drop_takeWhile]
      exact List.takeWhile_append_dropWhile
    have hstop : (body ++ c :: e).takeWhile (!isLineTerminator ·) = line :=
      takeWhile_append_stop (by rw [hc]; rfl) body e
    have hle : line.length ≤ body.length := (List.takeWhile_prefix _).length_le
    have hresumed := ih.behind ('/' :: '/' :: line) false ?_
    · rw [List.cons_append, List.cons_append, hbody, List.length_cons, List.length_cons,
        Nat.add_assoc, Nat.add_comm] at hresumed
      exact hresumed
    · show scan ('/' :: '/' :: (line ++ (body.drop line.length ++ c :: e))) = _
      rw [← List.append_assoc, hbody, scan, if_neg (by decide), if_neg (by decide), if_pos rfl]
      simp only [hstop]
      rw [List.drop_append_of_le_length hle, Nat.add_comm]
      rfl
  | case5 body newline n hcomment hline hblank ih =>
    have hle := comment_le hcomment
    have hlength : ('/' :: '*' :: body.take n).length = 2 + n := by
      rw [List.length_cons, List.length_cons, List.length_take, Nat.min_eq_left hle]
      omega
    have hresumed := ih.behind ('/' :: '*' :: body.take n) newline ?_
    · rw [List.cons_append, List.cons_append, List.take_append_drop, hlength] at hresumed
      exact hresumed
    · show scan ('/' :: '*' :: (body.take n ++ (body.drop n ++ c :: e))) = _
      rw [← List.append_assoc, List.take_append_drop, scan, if_neg (by decide), if_neg (by decide),
        if_pos rfl]
      simp only [comment_append hcomment]
      rw [List.drop_append_of_le_length hle, hlength]
  | case6 => trivial
  | case7 rest hslash hstar hline hblank =>
    -- the slash begins no comment, and no line terminator makes it begin one
    have hmark : ∀ d, isBlank d = false → ∀ body, rest ++ c :: e = d :: body →
        ∃ inner, rest = d :: inner := fun d hd body heq =>
      have hne := ne_of_blank (isBlank_of_lineTerminator hc) hd
      (append_eq_cons_of_ne hne heq).imp fun _ h => h.1
    have hnone : scan ('/' :: (rest ++ c :: e)) = passed false 0 := by
      rw [scan, if_neg hline, if_neg hblank, if_pos rfl]
      · intro body heq
        obtain ⟨inner, rfl⟩ := hmark '/' (by decide) body heq
        exact hslash inner rfl
      · intro body heq
        obtain ⟨inner, rfl⟩ := hmark '*' (by decide) body heq
        exact hstar inner rfl
    exact hnone.trans (if_pos (Nat.succ_pos _)).symm
  | case8 d rest hline hblank hslash =>
    exact (scan_none hline hblank hslash _).trans (if_pos (Nat.succ_pos _)).symm

end Gap

/-! ### Separators -/

/-- The marks that end an expression whatever it is. -/
def separators : List (Char × Punctuator) :=
  [(';', .semicolon), (')', .rightParen), (']', .rightBracket), ('}', .rightBrace), (':', .colon)]

namespace Lexer

/-- No gap and no other token begins with a separator. -/
theorem separators_alone : ∀ p ∈ separators,
    (isBlank p.1 = false ∧ isLineTerminator p.1 = false ∧ p.1 ≠ '/') ∧
    (p.1.isDigit = false ∧ isIdentifierStart p.1 = false ∧ p.1 ≠ '.' ∧ p.1 ≠ '\x22' ∧
      p.1 ≠ '\x27' ∧ p.1 ≠ Quoted.backtick) ∧
    ([p.1], TokenKind.punct p.2) ∈ marks ∧
    ∀ m ∈ marks, m.1.head? = some p.1 → m = ([p.1], TokenKind.punct p.2) := by decide +kernel

/-- The gap before a separator that stands in a line of its own. -/
theorem scan_line_separator {c : Char} {mark : Punctuator} (hc : (c, mark) ∈ separators)
    (s : List Char) : Gap.scan ('\n' :: c :: s) = .passed true 1 := by
  obtain ⟨⟨hblank, hline, hslash⟩, -⟩ := separators_alone _ hc
  rw [Gap.scan_line (by decide), Gap.scan_none (Bool.eq_false_iff.1 hline)
    (Bool.eq_false_iff.1 hblank) hslash]
  rfl

theorem mark_separator {c : Char} {mark : Punctuator} (hc : (c, mark) ∈ separators)
    (s : List Char) : mark? (c :: s) = some ([c], .punct mark) := by
  obtain ⟨-, -, hmem, honly⟩ := separators_alone _ hc
  have hfits : [c].isPrefixOf (c :: s) = true := by simp [List.isPrefixOf]
  have hmark : (TokenKind.punct mark == .punct .questionDot) = false := by
    have : ∀ p ∈ separators, (TokenKind.punct p.2 == .punct .questionDot) = false := by decide
    exact this _ hc
  -- a mark is found, since this one fits, and no other one begins with the character
  cases hfound : mark? (c :: s) with
  | none =>
    have hno := List.find?_eq_none.1 hfound _ hmem
    simp [hfits, hmark] at hno
  | some m =>
    obtain ⟨text, kind⟩ := m
    have hprefix := List.find?_some hfound
    rw [Bool.and_eq_true] at hprefix
    obtain ⟨hne, -⟩ := marks_spelled _ (List.mem_of_find?_eq_some hfound)
    refine congrArg some (honly _ (List.mem_of_find?_eq_some hfound) ?_)
    cases text with
    | nil => exact absurd rfl hne
    | cons d text =>
      exact congrArg some (List.cons_prefix_cons.1 (List.isPrefixOf_iff_prefix.1 hprefix.1)).1

/-- A separator is read as such, unless it goes on with a template. -/
theorem scanToken_separator {c : Char} {mark : Punctuator} (hc : (c, mark) ∈ separators)
    {braces : List Brace} (hbraces : braces.head? ≠ some .substitution) (regexAllowed : Bool)
    (s : List Char) : scanToken regexAllowed braces c s = .ok (.punct mark) 0 := by
  obtain ⟨⟨-, -, hslash⟩, ⟨hdigit, hstart, hdot, hdouble, hsingle, hbacktick⟩, -⟩ :=
    separators_alone _ hc
  unfold scanToken
  rw [if_neg fun h => hbraces h.2, if_neg (not_or.2 ⟨hdouble, hsingle⟩), if_neg hbacktick,
    if_neg (not_or.2 ⟨Bool.eq_false_iff.1 hdigit, fun h => hdot h.1⟩), if_neg fun h => hslash h.1,
    if_neg (Bool.eq_false_iff.1 hstart), scanMark, mark_separator hc]
  rfl

/-! ### Lexers with more text ahead -/

/-- Whether a lexer is at the same place as another, with more text behind what is
ahead there. -/
structure Extends (e : List Char) (l l' : Lexer) : Prop where
  rest : l'.rest = l.rest ++ e
  offset : l'.position.offset = l.position.offset
  position : l.rest ≠ [] → l'.position = l.position
  regexAllowed : l'.regexAllowed = l.regexAllowed
  braces : l'.braces = l.braces

theorem next_offset (p : Position) (c : Char) (after : List Char) :
    (p.next c after).offset = p.offset + 1 := by
  unfold Position.next
  split
  · rfl
  · split <;> rfl

variable {e : List Char} {l l' : Lexer}

theorem Extends.skip (h : Extends e l l') {n : Nat} (hn : n ≤ l.rest.length) :
    Extends e (l.skip n) (l'.skip n) := by
  induction n generalizing l l' with
  | zero => exact h
  | succ n ih =>
    cases hrest : l.rest with
    | nil =>
      rw [hrest] at hn
      exact nomatch hn
    | cons c after =>
      have hrest' : l'.rest = c :: (after ++ e) := by rw [h.rest, hrest, List.cons_append]
      have hposition := h.position (by rw [hrest]; exact List.cons_ne_nil _ _)
      rw [Lexer.skip, Lexer.skip, hrest, hrest']
      refine ih ⟨rfl, ?_, fun hne => ?_, h.regexAllowed, h.braces⟩ ?_
      · rw [next_offset, next_offset, h.offset]
      · cases after with
        | nil => exact absurd rfl hne
        | cons d after =>
          show l'.position.next c (d :: (after ++ e)) = l.position.next c (d :: after)
          rw [hposition]
          rfl
      · rw [hrest] at hn
        exact Nat.le_of_succ_le_succ hn

theorem Extends.after (h : Extends e l l') (kind : TokenKind) (access : Bool) :
    Extends e (l.after kind access) (l'.after kind access) where
  rest := h.rest
  offset := h.offset
  position := h.position
  regexAllowed := rfl
  braces := congrArg kind.bracesAfter h.braces

/-- The gap ahead, if a separator follows in a line of its own. -/
theorem Extends.gap {c : Char} {mark : Punctuator} {s : List Char}
    (h : Extends ('\n' :: c :: s) l l') (hc : (c, mark) ∈ separators) {newline : Bool} {used : Nat}
    (hgap : Gap.scan l.rest = .passed newline used) : Gap.scan l'.rest =
      if used < l.rest.length then .passed newline used else .passed true (used + 1) := by
  have happend := Gap.scan_append (c := '\n') (by decide) l.rest (c :: s)
  rw [hgap] at happend
  rw [h.rest]
  refine Eq.trans happend ?_
  rw [scan_line_separator hc]
  show (if _ then _ else Gap.passed (newline || true) (used + 1)) = _
  rw [Bool.or_true]

/-- At the end of a text the separator is the next token, unless it goes on with a
template. -/
theorem Extends.ended {c : Char} {mark : Punctuator} {s : List Char}
    (h : Extends ('\n' :: c :: s) l l') (hc : (c, mark) ∈ separators) {newline : Bool} {used : Nat}
    (hgap : Gap.scan l.rest = .passed newline used) (hrest : (l.skip used).rest = [])
    (hinside : l.braces.head? ≠ some .substitution) (access : Bool) :
    ∃ next more, Reads l' access (next :: more) ∧ next.kind = .punct mark := by
  have hused : l.rest.drop used = [] := (skip_rest used l).symm.trans hrest
  have hend : used = l.rest.length :=
    Nat.le_antisymm (Gap.used_le hgap) (List.drop_eq_nil_iff.1 hused)
  -- the gap goes on over the line terminator
  have hgap' : Gap.scan l'.rest = .passed true (used + 1) :=
    (h.gap hc hgap).trans (if_neg (by omega))
  have hrest' : (l'.skip (used + 1)).rest = c :: s := by
    rw [skip_rest, h.rest, hend, List.drop_append, List.drop_eq_nil_of_le (Nat.le_succ _),
      Nat.add_sub_cancel_left]
    rfl
  have hscan := scanToken_separator hc (h.braces ▸ hinside) l'.regexAllowed s
  exact ⟨_, _, .token hgap' hrest' hscan (reads_tokensFrom _ _), rfl⟩

/-- A token of a text is one of the longer text: it ends within the text, so what
follows is no part of it. -/
theorem Extends.token {c : Char} {mark : Punctuator} {s : List Char}
    (h : Extends ('\n' :: c :: s) l l') (hc : (c, mark) ∈ separators) {newline : Bool}
    {used n : Nat} {first : Char} {after : List Char} {kind : TokenKind}
    (hgap : Gap.scan l.rest = .passed newline used) (hrest : (l.skip used).rest = first :: after)
    (hscan : scanToken l.regexAllowed l.braces first after = .ok kind n) (access : Bool) :
    ∃ later, Extends ('\n' :: c :: s) (((l.skip used).skip (n + 1)).after kind access) later ∧
      ∀ ts, Reads later kind.isAccess ts → Reads l' access
        (⟨kind, (l.skip used).position, ((l.skip used).skip (n + 1)).position.offset, newline⟩ ::
          ts) := by
  have hused : l.rest.drop used = first :: after := (skip_rest used l).symm.trans hrest
  have hlt : used < l.rest.length := by
    refine Nat.lt_of_not_le fun hle => ?_
    rw [List.drop_eq_nil_of_le hle] at hused
    exact nomatch hused
  have hgap' : Gap.scan l'.rest = .passed newline used := (h.gap hc hgap).trans (if_pos hlt)
  have hhere := h.skip (Nat.le_of_lt hlt)
  have hrest' : (l'.skip used).rest = first :: (after ++ '\n' :: c :: s) := by
    rw [hhere.rest, hrest, List.cons_append]
  obtain ⟨hle, hmore⟩ := scanToken_settled _ _ _ _ _ _ hscan
  have hscan' := hmore '\n' (c :: s) (by decide)
  rw [← h.regexAllowed, ← h.braces] at hscan'
  have hbehind := hhere.skip (n := n + 1) (by rw [hrest]; exact Nat.succ_le_succ hle)
  have hposition := hhere.position (by rw [hrest]; exact List.cons_ne_nil _ _)
  refine ⟨_, hbehind.after kind access, fun ts hts => ?_⟩
  rw [← hposition, ← hbehind.offset]
  exact .token hgap' hrest' hscan' hts

theorem Reads.ne_nil {access : Bool} {ts : List Token} (h : Reads l access ts) : ts ≠ [] := by
  cases h <;> exact List.cons_ne_nil _ _

/-- Before a separator in a line of its own, a text that is read up to its end is read
as it is without that. -/
theorem Reads.append {access : Bool} {ts us : List Token} {final : Token} {c : Char}
    {mark : Punctuator} {s : List Char} (h : Reads l access ts) (hts : ts = us ++ [final])
    (hfinal : final.kind = .eof) (hc : (c, mark) ∈ separators)
    (hextends : Extends ('\n' :: c :: s) l l')
    (hbraces : ∀ inside, Braced l.braces (us.map Token.kind) inside →
      inside.head? ≠ some .substitution) :
    ∃ next more, Reads l' access (us ++ next :: more) ∧ next.kind = .punct mark := by
  -- only a text that is read to its end has an end for its last token
  induction h generalizing l' us with
  | comment hgap =>
    obtain rfl : final = _ := by simpa using congrArg List.getLast? hts.symm
    exact nomatch hfinal
  | failed hgap hrest hscan =>
    obtain rfl : final = _ := by simpa using congrArg List.getLast? hts.symm
    exact nomatch hfinal
  | ended hgap hrest =>
    obtain ⟨rfl, -⟩ | ⟨-, hnil⟩ := List.append_eq_singleton_iff.1 hts.symm
    · exact hextends.ended hc hgap hrest (hbraces _ (.nil _)) _
    · exact absurd hnil (List.cons_ne_nil _ _)
  | @token l access newline used n first after kind ts hgap hrest hscan h ih =>
    cases us with
    | nil => exact absurd (List.cons.inj hts).2 h.ne_nil
    | cons u us =>
      obtain ⟨rfl, hafter⟩ := List.cons.inj hts
      have hfits := scanToken_fits l.regexAllowed l.braces first after
      rw [hscan] at hfits
      obtain ⟨later, hlater, hreads⟩ := hextends.token hc hgap hrest hscan access
      obtain ⟨next, more, hmore, hnext⟩ := ih hafter hlater fun inside hinside => by
        refine hbraces inside (.cons hfits ?_)
        simpa [Lexer.after] using hinside
      exact ⟨next, more, hreads _ hmore, hnext⟩

end Lexer

/-- The tokens of a text are the first ones of a longer text in which a separator
follows in a line of its own, and the separator is the next one. -/
theorem tokenize_append {source : String} {us : List Token} {final : Token} {c : Char}
    {mark : Punctuator} (h : tokenize source = us ++ [final]) (hfinal : final.kind = .eof)
    (hc : (c, mark) ∈ separators)
    (hbraces : ∀ inside, Braced [] (us.map Token.kind) inside →
      inside.head? ≠ some .substitution) (after : String) :
    ∃ next more, tokenize (source ++ "\n" ++ String.singleton c ++ after) = us ++ next :: more ∧
      next.kind = .punct mark := by
  have htext : (source ++ "\n" ++ String.singleton c ++ after).toList =
      source.toList ++ '\n' :: c :: after.toList := by
    simp [String.toList_append]
  have hextends : Lexer.Extends ('\n' :: c :: after.toList) (.ofText source.toList)
      (.ofText (source ++ "\n" ++ String.singleton c ++ after).toList) :=
    ⟨htext, rfl, fun _ => rfl, rfl, rfl⟩
  obtain ⟨next, more, hreads, hnext⟩ :=
    (Lexer.reads_tokensFrom _ _).append h hfinal hc hextends hbraces
  exact ⟨next, more, hreads.eq_tokensFrom.symm, hnext⟩

end TemplateVars
