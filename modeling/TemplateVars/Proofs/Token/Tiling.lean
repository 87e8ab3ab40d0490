/-
Tokens tile a text.

The main result is `tokenize_tiles`: the tokens of a text stand in it one behind the
other, with nothing but gaps between them.

* `Placed` — what one token has to do with the text: the gap before it, its line and
  column, and its spelling if the kind has only one;
* `Lexer.Within.skip` — the lexer keeps count of lines and columns;
* `Lexer.scanToken_covers` — a token whose kind says how it is spelled covers that
  spelling.

Design notes: lines and columns are defined by looking at the text as a whole.  The
lexer counts one character at a time, and its column is wrong between CR and LF, but no
token begins there.
-/
import TemplateVars.Proofs.Token.Gap
import TemplateVars.Proofs.Token.Pass

namespace TemplateVars

open Text

/-! ### Places in a text -/

/-- The characters from one place in a text up to another. -/
def slice (text : List Char) (start stop : Nat) : List Char := (text.drop start).take (stop - start)

/-- Whether the character at a place ends its line: LF, LINE SEPARATOR, PARAGRAPH
SEPARATOR, or CR without LF behind it. -/
def endsLine (text : List Char) (i : Nat) : Bool :=
  match text[i]? with
  | some c => isLineTerminator c && !(c == '\r' && text[i + 1]? == some '\n')
  | none => false

/-- The line of a place, counted from one. -/
def lineAt (text : List Char) (offset : Nat) : Nat :=
  (List.range offset).countP (endsLine text) + 1

/-- The column of a place, counted from one: the characters behind the last one that
ends a line. -/
def columnAt (text : List Char) (offset : Nat) : Nat :=
  ((List.range offset).reverse.takeWhile (!endsLine text ·)).length + 1

/-- How a token stands in a text, behind the place where the one before it stops. -/
structure Placed (text : List Char) (behind : Nat) (t : Token) : Prop where
  behind_le : behind ≤ t.start.offset
  gap : Trivia (text.drop t.start.offset) (slice text behind t.start.offset)
  newline : (∀ cause, t.kind ≠ .invalid cause) →
    t.newlineBefore = (slice text behind t.start.offset).any isLineTerminator
  line : t.start.line = lineAt text t.start.offset
  column : t.start.column = columnAt text t.start.offset
  stop_le : t.stop ≤ text.length
  start_lt : t.kind ≠ .eof → t.start.offset < t.stop
  eof : t.kind = .eof → t.start.offset = text.length ∧ t.stop = text.length
  spelled : ∀ spelling, t.kind.spelling? = some spelling →
    slice text t.start.offset t.stop = spelling.toList

/-- Whether tokens tile a text from some place on: each begins where the one before it
stops or further on, and exactly the last one is terminal. -/
def Tiles (text : List Char) : Nat → List Token → Prop
  | _, [] => False
  | behind, [t] => Placed text behind t ∧ t.kind.isTerminal = true
  | behind, t :: u :: ts =>
    Placed text behind t ∧ t.kind.isTerminal = false ∧ Tiles text t.stop (u :: ts)

theorem Tiles.cons {text : List Char} {behind : Nat} {t : Token} {ts : List Token}
    (h : Placed text behind t) (ht : t.kind.isTerminal = false) (hts : Tiles text t.stop ts) :
    Tiles text behind (t :: ts) := by
  cases ts with
  | nil => exact hts.elim
  | cons u ts => exact ⟨h, ht, hts⟩

/-! ### Counting lines and columns -/

theorem lineAt_succ (text : List Char) (i : Nat) :
    lineAt text (i + 1) = lineAt text i + if endsLine text i then 1 else 0 := by
  rw [lineAt, lineAt, List.range_succ, List.countP_append, List.countP_singleton]
  omega

theorem columnAt_succ (text : List Char) (i : Nat) :
    columnAt text (i + 1) = if endsLine text i then 1 else columnAt text i + 1 := by
  rw [columnAt, columnAt, List.range_succ, List.reverse_append, List.reverse_singleton,
    List.singleton_append, List.takeWhile_cons]
  cases endsLine text i <;> rfl

/-- Whether a lexer is at some place of a text and knows its line, and its column unless
that is between CR and LF. -/
structure Lexer.Within (text : List Char) (l : Lexer) : Prop where
  rest : l.rest = text.drop l.position.offset
  offset_le : l.position.offset ≤ text.length
  line : l.position.line = lineAt text l.position.offset
  column : l.rest.head? ≠ some '\n' → l.position.column = columnAt text l.position.offset

namespace Lexer

variable {text : List Char} {l : Lexer}

theorem ofText_within (text : List Char) : (ofText text).Within text where
  rest := rfl
  offset_le := Nat.zero_le _
  line := rfl
  column := fun _ => rfl

/-- One character further on. -/
theorem Within.next (h : l.Within text) {c : Char} {after : List Char}
    (hrest : l.rest = c :: after) :
    Within text { l with rest := after, position := l.position.next c after } := by
  have hdrop : text.drop l.position.offset = c :: after := h.rest.symm.trans hrest
  have hc : text[l.position.offset]? = some c := by
    rw [← List.head?_drop, hdrop]
    rfl
  have hafter : after = text.drop (l.position.offset + 1) := by
    rw [← List.drop_drop, hdrop]
    rfl
  have hlt : l.position.offset + 1 ≤ text.length := (List.getElem?_eq_some_iff.1 hc).1
  have hends : endsLine text l.position.offset =
      (isLineTerminator c && !(c == '\r' && after.head? == some '\n')) := by
    rw [endsLine, hc, hafter, List.head?_drop]
  have hline := lineAt_succ text l.position.offset
  have hcolumn := columnAt_succ text l.position.offset
  rw [hends] at hline hcolumn
  by_cases hpair : c = '\r' ∧ after.head? = some '\n'
  · -- the line ends only behind the LF that follows
    have hnext : l.position.next c after = { l.position with offset := l.position.offset + 1 } :=
      if_pos hpair
    rw [hnext]
    refine ⟨hafter, hlt, ?_, fun hne => absurd hpair.2 hne⟩
    show l.position.line = lineAt text (l.position.offset + 1)
    rw [hline, hpair.1, hpair.2]
    exact h.line
  by_cases hterminator : isLineTerminator c = true
  · have hnext : l.position.next c after = ⟨l.position.offset + 1, l.position.line + 1, 1⟩ := by
      rw [Position.next, if_neg hpair, if_pos hterminator]
    have hfalse : (c == '\r' && after.head? == some '\n') = false := by
      refine Bool.eq_false_iff.2 fun h => hpair ?_
      rwa [Bool.and_eq_true, beq_iff_eq, beq_iff_eq] at h
    rw [hterminator, hfalse] at hline hcolumn
    rw [hnext]
    refine ⟨hafter, hlt, ?_, fun _ => hcolumn.symm⟩
    show l.position.line + 1 = lineAt text (l.position.offset + 1)
    rw [hline, h.line]
    rfl
  · have hnext : l.position.next c after =
        ⟨l.position.offset + 1, l.position.line, l.position.column + 1⟩ := by
      rw [Position.next, if_neg hpair, if_neg hterminator]
    rw [Bool.eq_false_iff.2 hterminator] at hline hcolumn
    rw [hnext]
    refine ⟨hafter, hlt, h.line.trans hline.symm, fun _ => ?_⟩
    show l.position.column + 1 = columnAt text (l.position.offset + 1)
    rw [hcolumn, h.column]
    · rfl
    · rw [hrest]
      rintro ⟨⟩
      exact hterminator (by decide)

theorem Within.skip (h : l.Within text) (n : Nat) : (l.skip n).Within text := by
  induction n generalizing l with
  | zero => exact h
  | succ n ih =>
    unfold Lexer.skip
    split
    · exact h
    · next c after hrest => exact ih (h.next hrest)

end Lexer

/-! ### Spellings -/

/-- Whether a token read behind a first character covers its spelling, if its kind has
only one. -/
def Covers (first : Char) (s : List Char) : Scan TokenKind → Prop
  | .ok kind n => ∀ spelling, kind.spelling? = some spelling → first :: s.take n = spelling.toList
  | .error _ _ => True

/-- Nothing is to be shown of a kind that may be spelled in many ways. -/
theorem Covers.of_none {first : Char} {s : List Char} {r : Scan TokenKind}
    (h : r.All fun kind => kind.spelling? = none) : Covers first s r := by
  cases r with
  | ok kind n => exact fun spelling hspelling => nomatch (show _ = none from h).symm.trans hspelling
  | error cause n => trivial

theorem take_takeWhile {α : Type} (p : α → Bool) (l : List α) :
    l.take (l.takeWhile p).length = l.takeWhile p :=
  (List.prefix_iff_eq_take.1 (List.takeWhile_prefix p)).symm

/-- The pattern of a regular expression is spelled as it is. -/
theorem Quoted.scanPattern_covers {inClass : Bool} {s pattern : List Char} {n : Nat}
    (h : scanPattern inClass s = .ok pattern n) : s.take n = pattern ++ ['/'] := by
  fun_induction scanPattern inClass s generalizing pattern n with
  | case1 => exact nomatch h
  | case2 => exact nomatch h
  | case3 => exact nomatch h
  | case4 => exact nomatch h
  | case5 inClass c rest _ _ ih =>
    obtain ⟨pattern, n, hscan, rfl, rfl⟩ := before_ok h
    rw [Nat.add_comm, List.take_succ_cons, List.take_succ_cons, ih hscan]
    rfl
  | case6 inClass c rest _ _ hclose =>
    cases h
    rw [hclose.1]
    rfl
  | case7 =>
    next ih =>
    obtain ⟨pattern, n, hscan, rfl, rfl⟩ := before_ok h
    rw [Nat.add_comm, List.take_succ_cons, ih hscan]
    rfl

theorem Quoted.scanRegex_covers (s : List Char) : Covers '/' s (scanRegex s) := by
  unfold scanRegex
  cases hscan : scanPattern false s with
  | error cause n => trivial
  | ok pattern n =>
    rintro _ ⟨⟩
    rw [List.take_add, scanPattern_covers hscan, take_takeWhile]
    simp

namespace Lexer

theorem ofWord_spelling (word : String) : (TokenKind.ofWord word).spelling? = some word := by
  unfold TokenKind.ofWord
  split
  · next k hk =>
    have hword := List.find?_some hk
    rw [TokenKind.spelling?, beq_iff_eq.1 hword]
  · split <;> rfl

theorem scanWord_covers (first : Char) (s : List Char) : Covers first s (scanWord first s) := by
  unfold scanWord
  simp only []
  split
  · trivial
  · intro spelling hspelling
    rw [ofWord_spelling] at hspelling
    cases hspelling
    rw [take_takeWhile, String.toList_ofList]

theorem scanMark_covers (first : Char) (s : List Char) : Covers first s (scanMark first s) := by
  unfold scanMark
  split
  · next text kind hmark =>
    intro spelling hspelling
    obtain ⟨hne, hspelled⟩ := marks_spelled _ (List.mem_of_find?_eq_some hmark)
    have hpre := List.find?_some hmark
    rw [Bool.and_eq_true] at hpre
    obtain ⟨behind, hbehind⟩ := List.isPrefixOf_iff_prefix.1 hpre.1
    rw [show kind.spelling? = some spelling from hspelling] at hspelled
    obtain rfl := Option.some.inj hspelled
    cases hlist : spelling.toList with
    | nil => exact absurd hlist hne
    | cons c cs =>
      rw [hlist] at hbehind
      obtain ⟨rfl, rfl⟩ := List.cons.inj hbehind
      show c :: (cs ++ behind).take (cs.length + 1 - 1) = c :: cs
      rw [Nat.add_sub_cancel, List.take_left]
  · split <;> trivial

theorem scanToken_covers (regexAllowed : Bool) (braces : List Brace) (first : Char)
    (s : List Char) : Covers first s (scanToken regexAllowed braces first s) := by
  have piece : ∀ opening, Covers first s ((Quoted.scanPiece s).map (pieceToken opening)) := by
    refine fun opening => .of_none (.map fun piece => ?_)
    obtain ⟨text, ending⟩ := piece
    cases ending <;> cases opening <;> rfl
  unfold scanToken
  split
  · exact piece false
  split
  · exact .of_none (.map fun _ => rfl)
  split
  · exact piece true
  split
  · exact .of_none (Numeral.scan_all (fun _ => rfl) (fun _ => rfl) first s)
  split
  · next h => exact h.1 ▸ Quoted.scanRegex_covers s
  split
  · exact scanWord_covers first s
  · exact scanMark_covers first s

/-! ### The tokens of a pass -/

variable {text : List Char} {l : Lexer}

/-- What the lexer moves over is what stands in the text there. -/
theorem Within.slice_skip (h : l.Within text) (n : Nat) :
    slice text l.position.offset (l.skip n).position.offset = l.rest.take n := by
  rw [slice, ← h.rest, skip_offset, Nat.add_sub_cancel_left, ← List.take_eq_take_min]

/-- A token behind a gap. -/
theorem Within.placed (h : l.Within text) {gap rest : List Char} (hrest : l.rest = gap ++ rest)
    (hgap : Trivia rest gap) (hhead : rest.head? ≠ some '\n') {t : Token}
    (hstart : t.start = (l.skip gap.length).position)
    (hnewline : (∀ cause, t.kind ≠ .invalid cause) → t.newlineBefore = gap.any isLineTerminator)
    (hstop : t.stop ≤ text.length) (hlt : t.kind ≠ .eof → t.start.offset < t.stop)
    (heof : t.kind = .eof → t.start.offset = text.length ∧ t.stop = text.length)
    (hspelled : ∀ spelling, t.kind.spelling? = some spelling →
      slice text t.start.offset t.stop = spelling.toList) :
    Placed text l.position.offset t := by
  have hhere := h.skip gap.length
  have hrest' : (l.skip gap.length).rest = rest := by rw [skip_rest, hrest, List.drop_left]
  have hslice : slice text l.position.offset t.start.offset = gap := by
    rw [hstart, h.slice_skip, hrest, List.take_left]
  refine ⟨?_, ?_, ?_, ?_, ?_, hstop, hlt, heof, hspelled⟩
  · rw [hstart, skip_offset]
    exact Nat.le_add_right _ _
  · rw [hslice, hstart, ← hhere.rest, hrest']
    exact hgap
  · rw [hslice]
    exact hnewline
  · rw [hstart]
    exact hhere.line
  · rw [hstart]
    exact hhere.column (by rw [hrest']; exact hhead)

/-- Behind a gap the reader of a token takes one character at least. -/
theorem Within.placed_read (hl : l.Within text) {newline : Bool} {used n : Nat} {first : Char}
    {s : List Char} (hgap : Gap.scan l.rest = .passed newline used)
    (hfirst : (l.skip used).rest = first :: s) {t : Token}
    (hstart : t.start = (l.skip used).position)
    (hstop : t.stop = ((l.skip used).skip (n + 1)).position.offset)
    (hnewline : (∀ cause, t.kind ≠ .invalid cause) → t.newlineBefore = newline)
    (hkind : t.kind ≠ .eof) (hspelled : ∀ spelling, t.kind.spelling? = some spelling →
      first :: s.take n = spelling.toList) : Placed text l.position.offset t := by
  have hparts := Gap.scan_trivia l.rest
  rw [hgap] at hparts
  obtain ⟨gap, rest, hrest, rfl, htrivia, rfl, hhead⟩ := hparts
  have hhere := hl.skip gap.length
  refine hl.placed hrest htrivia hhead hstart hnewline ?_ (fun _ => ?_) (absurd · hkind) ?_
  · rw [hstop]
    exact (hhere.skip (n + 1)).offset_le
  · rw [hstart, hstop, skip_offset (n + 1), hfirst, List.length_cons]
    omega
  · intro spelling hspelling
    rw [hstart, hstop, hhere.slice_skip, hfirst, List.take_succ_cons, hspelled spelling hspelling]

/-- The tokens of a pass tile the text from where it starts. -/
theorem Reads.tiles {access : Bool} {ts : List Token} (h : Reads l access ts)
    (hl : l.Within text) : Tiles text l.position.offset ts := by
  induction h with
  | @comment l access start used hgap =>
    have hparts := Gap.scan_trivia l.rest
    rw [hgap] at hparts
    obtain ⟨gap, rest, hrest, rfl, rfl, htrivia⟩ := hparts
    refine ⟨hl.placed hrest htrivia nofun rfl (fun h => absurd rfl (h _)) ?_ ?_ nofun nofun, rfl⟩
    · exact (hl.skip _).offset_le
    · intro _
      show (l.skip gap.length).position.offset < (l.skip l.rest.length).position.offset
      rw [skip_offset, skip_offset, hrest, List.length_append, List.length_cons]
      omega
  | @ended l access newline used hgap hend =>
    have hparts := Gap.scan_trivia l.rest
    rw [hgap] at hparts
    obtain ⟨gap, rest, hrest, rfl, htrivia, rfl, hhead⟩ := hparts
    have hhere := hl.skip gap.length
    -- nothing is left of the text, so this is its end
    have hall : (l.skip gap.length).position.offset = text.length := by
      refine Nat.le_antisymm hhere.offset_le (List.drop_eq_nil_iff.1 ?_)
      rw [← hhere.rest, hend]
    exact ⟨hl.placed hrest htrivia hhead rfl (fun _ => rfl) hhere.offset_le (absurd rfl)
      (fun _ => ⟨hall, hall⟩) nofun, rfl⟩
  | @failed l access newline used n first s cause hgap hfirst hscan =>
    exact ⟨hl.placed_read hgap hfirst rfl rfl (fun h => absurd rfl (h _)) nofun nofun, rfl⟩
  | @token l access newline used n first s kind ts hgap hfirst hscan _ ih =>
    have hlive := scanToken_live l.regexAllowed l.braces first s
    have hcovers := scanToken_covers l.regexAllowed l.braces first s
    rw [hscan] at hlive hcovers
    have hkind : kind ≠ .eof := by
      rintro rfl
      exact nomatch hlive
    refine .cons (hl.placed_read hgap hfirst rfl rfl (fun _ => rfl) hkind hcovers) hlive ?_
    have hnext := (hl.skip used).skip (n + 1)
    exact ih ⟨hnext.rest, hnext.offset_le, hnext.line, hnext.column⟩

end Lexer

/-- The tokens of a text tile it. -/
theorem tokenize_tiles (source : String) : Tiles source.toList 0 (tokenize source) :=
  (Lexer.reads_tokensFrom _ _).tiles (Lexer.ofText_within _)

end TemplateVars
