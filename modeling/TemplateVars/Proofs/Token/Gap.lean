/-
The gap before a token, as text.

`Trivia after gap` says what a gap is made of: blanks, comments up to the end of a
line, and comments between `/*` and `*/`.  A comment up to the end of a line goes on
until there, which is why the text behind the gap matters.

* `Gap.scan_trivia` — what the lexer passes over before a token is a gap, and is told
  to cross a line exactly if a line terminator is in it.

Design notes: every line terminator is a blank, so a gap has no rule of its own for
them.
-/
import TemplateVars.Token.Gap

namespace TemplateVars

open Text

/-- Whether a text is at the end of a line. -/
def AtLineEnd (s : List Char) : Prop := ∀ c ∈ s.head?, isLineTerminator c = true

/-- What stands between two tokens, if some text follows. -/
inductive Trivia (after : List Char) : List Char → Prop where
  | nil : Trivia after []
  | blank {c : Char} {gap : List Char} (hc : isBlank c = true) (h : Trivia after gap) :
      Trivia after (c :: gap)
  | lineComment {body gap : List Char} (hbody : body.any isLineTerminator = false)
      (hend : AtLineEnd (gap ++ after)) (h : Trivia after gap) :
      Trivia after ('/' :: '/' :: (body ++ gap))
  /-- No `*/` stands in front of the one that ends the comment. -/
  | blockComment {body gap : List Char} (hbody : ¬['*', '/'] <:+: body ++ ['*'])
      (h : Trivia after gap) : Trivia after ('/' :: '*' :: (body ++ '*' :: '/' :: gap))

theorem isBlank_of_lineTerminator {c : Char} (h : isLineTerminator c = true) :
    isBlank c = true := by
  simp only [isLineTerminator, Bool.or_eq_true, beq_iff_eq] at h
  obtain ((rfl | rfl) | rfl) | rfl := h <;> decide

/-- What is left of a list behind its longest part with a property. -/
theorem drop_takeWhile {α : Type} (p : α → Bool) (l : List α) :
    l.drop (l.takeWhile p).length = l.dropWhile p :=
  calc l.drop (l.takeWhile p).length
    _ = (l.takeWhile p ++ l.dropWhile p).drop (l.takeWhile p).length := by
      rw [List.takeWhile_append_dropWhile]
    _ = l.dropWhile p := List.drop_left

/-- A line goes on to its end. -/
theorem atLineEnd_dropWhile (s : List Char) : AtLineEnd (s.dropWhile (!isLineTerminator ·)) := by
  intro c hc
  have h := List.head?_dropWhile_not (!isLineTerminator ·) s
  rw [hc] at h
  have h : (!isLineTerminator c) = false := h
  rwa [Bool.not_eq_false'] at h

namespace Gap

/-- A comment that ends goes up to the first `*/`. -/
theorem comment_body {s : List Char} {newline : Bool} {n : Nat}
    (h : comment? s = some (newline, n)) :
    ∃ body rest, s = body ++ '*' :: '/' :: rest ∧ n = body.length + 2 ∧
      newline = body.any isLineTerminator ∧ ¬['*', '/'] <:+: body ++ ['*'] := by
  induction s using comment?.induct generalizing newline n with
  | case1 => exact nomatch h
  | case2 rest =>
    rw [comment?] at h
    cases h
    exact ⟨[], rest, rfl, rfl, rfl, fun h => absurd h.length_le (by decide)⟩
  | case3 c rest hc ih =>
    rw [comment?, Option.map_eq_some_iff] at h
    · obtain ⟨⟨newline', n'⟩, hrest, heq⟩ := h
      cases heq
      obtain ⟨body, after, rfl, rfl, rfl, hbody⟩ := ih hrest
      refine ⟨c :: body, after, rfl, rfl, rfl, fun hinfix => ?_⟩
      rcases List.infix_cons_iff.1 hinfix with hprefix | hinfix
      · -- the mark would be found here
        obtain ⟨hstar, hslash⟩ := List.cons_prefix_cons.1 hprefix
        cases body with
        | nil => exact absurd (List.cons_prefix_cons.1 hslash).1 (by decide)
        | cons d body =>
          obtain rfl := (List.cons_prefix_cons.1 hslash).1
          exact hc _ hstar.symm rfl
      · exact hbody hinfix
    · exact hc

/-- What a gap says of the text that it is in front of. -/
def Parts (s : List Char) : Gap → Prop
  | passed newline used => ∃ gap rest, s = gap ++ rest ∧ used = gap.length ∧ Trivia rest gap ∧
      newline = gap.any isLineTerminator ∧ rest.head? ≠ some '\n'
  | unterminated start used => ∃ gap rest, s = gap ++ '/' :: '*' :: rest ∧ start = gap.length ∧
      used = s.length ∧ Trivia ('/' :: '*' :: rest) gap

theorem Parts.behind {s : List Char} {g : Gap} (first : List Char) {newline : Bool}
    (h : g.Parts s) (hnewline : newline = first.any isLineTerminator)
    (hfirst : ∀ gap after, s = gap ++ after → Trivia after gap → Trivia after (first ++ gap)) :
    (g.behind newline first.length).Parts (first ++ s) := by
  cases g with
  | passed later used =>
    obtain ⟨gap, rest, rfl, rfl, hgap, rfl, hrest⟩ := h
    refine
      ⟨first ++ gap, rest, (List.append_assoc ..).symm, ?_, hfirst gap rest rfl hgap, ?_, hrest⟩
    · rw [List.length_append]
    · rw [hnewline, List.any_append]
  | unterminated start used =>
    obtain ⟨gap, rest, rfl, rfl, rfl, hgap⟩ := h
    refine ⟨first ++ gap, rest, (List.append_assoc ..).symm, ?_, ?_, hfirst gap _ rfl hgap⟩
    · rw [List.length_append]
    · rw [List.length_append, List.length_append, List.length_append]

/-- A character that begins no gap. -/
theorem Parts.none {c : Char} {rest : List Char} (hc : ¬isLineTerminator c = true) :
    (passed false 0).Parts (c :: rest) :=
  ⟨[], c :: rest, rfl, rfl, .nil, rfl, fun h => hc (by cases h; decide)⟩

/-- What the lexer passes over is a gap. -/
theorem scan_trivia (s : List Char) : (scan s).Parts s := by
  fun_induction scan s with
  | case1 => exact ⟨[], [], rfl, rfl, .nil, rfl, nofun⟩
  | case2 c rest hline ih =>
    refine ih.behind [c] (by simp [hline]) fun gap after _ hgap => ?_
    exact .blank (isBlank_of_lineTerminator hline) hgap
  | case3 c rest hline hblank ih =>
    exact ih.behind [c] (by simp [hline]) fun gap after _ hgap => .blank hblank hgap
  | case4 body line _ _ ih =>
    have hline : line.any isLineTerminator = false := by
      rw [List.any_eq_not_all_not, Bool.not_eq_false']
      exact List.all_takeWhile
    rw [show body.drop line.length = body.dropWhile (!isLineTerminator ·) from
      drop_takeWhile _ body] at ih ⊢
    have hmarked : false = ('/' :: '/' :: line).any isLineTerminator := by
      simp [hline, isLineTerminator]
    have := ih.behind ('/' :: '/' :: line) hmarked fun gap after hgap htrivia =>
      .lineComment hline (hgap ▸ atLineEnd_dropWhile body) htrivia
    rwa [List.cons_append, List.cons_append, List.takeWhile_append_dropWhile, List.length_cons,
      List.length_cons, Nat.add_assoc, Nat.add_comm] at this
  | case5 body newline n hcomment _ _ ih =>
    obtain ⟨inner, rest, rfl, rfl, rfl, hinner⟩ := comment_body hcomment
    have hrest : (inner ++ '*' :: '/' :: rest).drop (inner.length + 2) = rest := by
      rw [List.drop_append, List.drop_eq_nil_of_le (Nat.le_add_right _ _), Nat.add_sub_cancel_left]
      rfl
    rw [hrest] at ih ⊢
    have := ih.behind ('/' :: '*' :: (inner ++ ['*', '/']))
      (show inner.any isLineTerminator = _ by simp [isLineTerminator]) ?_
    · simpa [Nat.add_comm, Nat.add_assoc, Nat.add_left_comm] using this
    · intro gap after hgap htrivia
      simpa using Trivia.blockComment hinner htrivia
  | case6 body _ => exact ⟨[], body, rfl, rfl, Nat.add_comm _ _, .nil⟩
  | case7 rest _ _ hline => exact .none hline
  | case8 c rest hline => exact .none hline

end Gap

end TemplateVars
