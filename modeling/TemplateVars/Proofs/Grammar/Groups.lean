/-
The group behind a parenthesis, and whether `=>` follows it.

The main result is `arrowFollows_at`: the search for the parenthesis that closes a group stops at
the one that matches, and finds no `=>` if a terminal token comes while a bracket is open.

* `GroupAt.drop_eq` — the tokens of a group, and those behind it;
* `arrowAfterClosing_open` — the search goes on for as long as a bracket is open.

Design notes: the search counts the brackets of all three kinds together, and its count never
falls below zero.  `openBrackets` is a difference, which may.  The two agree up to the place where
the count first returns to zero, and behind that nothing is looked at but the next token.
-/
import TemplateVars.Proofs.Grammar.Moved

namespace TemplateVars

/-! ### Counting brackets -/

/-- The brackets that some tokens open, less those that they close. -/
def openBrackets (ks : List TokenKind) : Int :=
  ks.countP TokenKind.opensBracket - ks.countP TokenKind.closesBracket

@[simp] theorem openBrackets_nil : openBrackets [] = 0 := rfl

theorem openBrackets_opening {k : TokenKind} (h : k.opensBracket = true) (ks : List TokenKind) :
    openBrackets (k :: ks) = openBrackets ks + 1 := by
  have hcloses : ¬k.closesBracket = true := by
    obtain ⟨p, hp, rfl⟩ := opening_bracket h
    revert p
    decide
  rw [openBrackets, openBrackets, List.countP_cons_of_pos h, List.countP_cons_of_neg hcloses]
  omega

theorem openBrackets_closing {k : TokenKind} (hopens : ¬k.opensBracket = true)
    (h : k.closesBracket = true) (ks : List TokenKind) :
    openBrackets (k :: ks) = openBrackets ks - 1 := by
  rw [openBrackets, openBrackets, List.countP_cons_of_neg hopens, List.countP_cons_of_pos h]
  omega

theorem openBrackets_other {k : TokenKind} (hopens : ¬k.opensBracket = true)
    (hcloses : ¬k.closesBracket = true) (ks : List TokenKind) :
    openBrackets (k :: ks) = openBrackets ks := by
  rw [openBrackets, openBrackets, List.countP_cons_of_neg hopens, List.countP_cons_of_neg hcloses]

/-- If a bracket is open behind each front of some tokens, up to a terminal one, the search for
the bracket that closes the outermost one ends there. -/
theorem arrowAfterClosing_open {ts : List Token} {t : Token} {opened k : Nat}
    (ht : ts[k]? = some t) (hterminal : t.kind.isTerminal = true)
    (hopen : ∀ m ≤ k, 0 < opened + openBrackets (kinds (ts.take m))) :
    arrowAfterClosing opened ts = false := by
  induction ts generalizing opened k with
  | nil => exact nomatch ht
  | cons u ts ih =>
    cases k with
    | zero =>
      obtain rfl : u = t := Option.some.inj ht
      exact arrowAfterClosing_terminal hterminal opened ts
    | succ k =>
      have hbehind : ∀ m ≤ k, 0 < opened + openBrackets (u.kind :: kinds (ts.take m)) :=
        fun m hm => hopen (m + 1) (Nat.succ_le_succ hm)
      rw [arrowAfterClosing]
      split
      · next hopens =>
        refine ih ht fun m hm => ?_
        have hcount := hbehind m hm
        rw [openBrackets_opening hopens] at hcount
        omega
      split
      · next hopens hcloses =>
        simp only [openBrackets_closing hopens hcloses] at hbehind
        -- one bracket more is open than this one closes
        have hone := hbehind 0 (Nat.zero_le k)
        rw [List.take_zero, kinds, List.map_nil, openBrackets_nil] at hone
        rw [if_neg (by omega)]
        refine ih ht fun m hm => ?_
        have hcount := hbehind m hm
        omega
      split
      · rfl
      · next hopens hcloses _ =>
        refine ih ht fun m hm => ?_
        have hcount := hbehind m hm
        rwa [openBrackets_other hopens hcloses] at hcount

/-! ### Groups in a list of tokens -/

/-- Whether a parenthesis at one index opens a group that the one at another index closes. -/
structure GroupAt (ts : List Token) (i j : Nat) : Prop where
  opening : (kinds ts)[i]? = some (.punct .leftParen)
  closing : (kinds ts)[j]? = some (.punct .rightParen)
  lt : i < j
  nested : Nested brackets (kinds (ts.extract (i + 1) j))

theorem drop_of_kinds {ts : List Token} {i : Nat} {k : TokenKind} (h : (kinds ts)[i]? = some k) :
    ∃ t, t.kind = k ∧ ts.drop i = t :: ts.drop (i + 1) := by
  rw [kinds, List.getElem?_map, Option.map_eq_some_iff] at h
  obtain ⟨t, ht, rfl⟩ := h
  obtain ⟨hlt, rfl⟩ := List.getElem?_eq_some_iff.1 ht
  exact ⟨_, rfl, List.drop_eq_getElem_cons hlt⟩

theorem GroupAt.drop_eq {ts : List Token} {i j : Nat} (h : GroupAt ts i j) :
    ∃ t u, t.kind = .punct .leftParen ∧ u.kind = .punct .rightParen ∧
      ts.drop i = t :: (ts.extract (i + 1) j ++ u :: ts.drop (j + 1)) := by
  obtain ⟨t, ht, hi⟩ := drop_of_kinds h.opening
  obtain ⟨u, hu, hj⟩ := drop_of_kinds h.closing
  refine ⟨t, u, ht, hu, ?_⟩
  calc ts.drop i
    _ = t :: ts.drop (i + 1) := hi
    _ = t :: (ts.extract (i + 1) j ++ (ts.drop (i + 1)).drop (j - (i + 1))) := by
      rw [List.extract_eq_take_drop, List.take_append_drop]
    _ = t :: (ts.extract (i + 1) j ++ u :: ts.drop (j + 1)) := by
      rw [List.drop_drop, Nat.add_sub_of_le h.lt, hj]

theorem arrowNext_drop {ts : List Token} {i : Nat} : arrowNext (ts.drop i) = true ↔
    ∃ t, ts[i]? = some t ∧ t.kind = .punct .arrow ∧ t.newlineBefore = false := by
  rw [← List.head?_drop]
  cases ts.drop i with
  | nil => simp [arrowNext]
  | cons t rest => simp [arrowNext]

/-- Behind a group whose brackets are nested it is the token behind the matching parenthesis that
tells whether `=>` follows; and if a terminal token comes while some bracket is open, none does. -/
theorem arrowFollows_at (ts : List Token) (i : Nat) :
    (∀ j, GroupAt ts i j → (arrowFollows (ts.drop i) = true ↔
      ∃ t, ts[j + 1]? = some t ∧ t.kind = .punct .arrow ∧ t.newlineBefore = false)) ∧
    ∀ k t, i < k → ts[k]? = some t → t.kind.isTerminal = true →
      (∀ m, i < m → m ≤ k → 0 < openBrackets (kinds (ts.extract i m))) →
      arrowFollows (ts.drop i) = false := by
  refine ⟨fun j h => ?_, fun k t hlt ht hterminal hopen => ?_⟩
  · obtain ⟨t, u, ht, hu, hdrop⟩ := h.drop_eq
    rw [hdrop, arrowFollows_enclosed h.nested.balanced ht hu, arrowNext_drop]
  · obtain ⟨n, rfl⟩ := Nat.exists_eq_add_of_lt hlt
    rw [Nat.add_assoc, ← List.getElem?_drop] at ht
    have hfront : ∀ m ≤ n + 1, 0 < m → 0 < openBrackets (kinds ((ts.drop i).take m)) := by
      intro m hm hpos
      have hcount := hopen (i + m) (Nat.lt_add_of_pos_right hpos) (Nat.add_le_add_left hm i)
      rwa [List.extract_eq_take_drop, Nat.add_sub_cancel_left] at hcount
    cases hdrop : ts.drop i with
    | nil => rfl
    | cons u rest =>
      rw [hdrop] at ht hfront
      by_cases hu : u.kind = .punct .leftParen
      · have hopens : u.kind.opensBracket = true := by rw [hu]; rfl
        rw [arrowFollows, arrowAfterClosing, if_pos hopens]
        refine Bool.and_eq_false_imp.2 fun _ => arrowAfterClosing_open ht hterminal fun m hm => ?_
        have hcount := hfront (m + 1) (Nat.succ_le_succ hm) (Nat.succ_pos m)
        rw [List.take_succ_cons, kinds_cons, openBrackets_opening hopens] at hcount
        omega
      · exact arrowFollows_other hu

/-- Brackets of all kinds and a template inside of parameters; and a bracket that stays open, so
that the `=>` behind the parenthesis is not seen. -/
theorem arrowFollows_at_template :
    (GroupAt (tokenize "f, (\x7ba: [b]\x7d, `$\x7bc\x7d`) => d") 2 14 ∧
      (arrowFollows ((tokenize "f, (\x7ba: [b]\x7d, `$\x7bc\x7d`) => d").drop 2) = true ↔
        ∃ t, (tokenize "f, (\x7ba: [b]\x7d, `$\x7bc\x7d`) => d")[15]? = some t ∧
          t.kind = .punct .arrow ∧ t.newlineBefore = false)) ∧
    ∃ t, (tokenize "(a, [b) => c")[8]? = some t ∧ t.kind.isTerminal = true ∧
      (∀ m, 0 < m → m ≤ 8 → 0 < openBrackets (kinds ((tokenize "(a, [b) => c").extract 0 m))) ∧
      arrowFollows ((tokenize "(a, [b) => c").drop 0) = false := by
  have hinside : kinds ((tokenize "f, (\x7ba: [b]\x7d, `$\x7bc\x7d`) => d").extract 3 14) =
      .punct .leftBrace :: (([.identifier "a", .punct .colon] ++ .punct .leftBracket ::
        ([.identifier "b"] ++ .punct .rightBracket :: [])) ++ .punct .rightBrace ::
        [.punct .comma, .templateHead "", .identifier "c", .templateTail ""]) := by
    decide +kernel
  have hgroup : GroupAt (tokenize "f, (\x7ba: [b]\x7d, `$\x7bc\x7d`) => d") 2 14 := by
    refine ⟨by decide +kernel, by decide +kernel, by decide, ?_⟩
    rw [hinside]
    have hb : Nested brackets [.identifier "b"] := .plain (by decide) .nil
    refine .group (by decide) ?_ ?_
    · exact .plain (by decide) (.plain (by decide) (.group (by decide) hb .nil))
    · exact .plain (by decide) (.plain (by decide) (.plain (by decide) (.plain (by decide) .nil)))
  have hlast : ((tokenize "(a, [b) => c")[8]?.map Token.kind) = some .eof := by decide +kernel
  obtain ⟨t, ht, hkind⟩ := Option.map_eq_some_iff.1 hlast
  have hterminal : t.kind.isTerminal = true := by rw [hkind]; rfl
  have hopen : ∀ m ≤ 8, 0 < m →
      0 < openBrackets (kinds ((tokenize "(a, [b) => c").extract 0 m)) := by decide +kernel
  refine ⟨⟨hgroup, (arrowFollows_at _ 2).1 14 hgroup⟩, t, ht, hterminal,
    fun m hpos hm => hopen m hm hpos, ?_⟩
  exact (arrowFollows_at _ 0).2 8 t (by decide) ht hterminal fun m hpos hm => hopen m hm hpos

end TemplateVars
