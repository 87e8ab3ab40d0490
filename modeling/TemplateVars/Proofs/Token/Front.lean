/-
Tokens of the front of a text.

A reader that succeeds on a text succeeds in the same way on a front of it that holds the
characters it uses: what it looks at behind them it looks at only to see that nothing
goes on there.

* `Contained` — a reader needs no more of a text than it uses;
* `Lexer.scanToken_take` — so does the reader that the lexer calls, except that a
  question mark is not told from `?.` if the text is cut before a digit behind the point.

Design notes: `Settled` puts characters behind a text and this takes them away.  The two
together exchange what stands behind a token for something that begins with a blank.
-/
import TemplateVars.Proofs.Token.Escapes
import TemplateVars.Proofs.Token.Prefix

namespace TemplateVars

open Text

/-- Whether a reader that succeeds on a text does so on each front of it that holds the
characters it uses. -/
def Contained {α : Type} (scan : List Char → Scan α) (s : List Char) : Prop :=
  ∀ value n m, scan s = .ok value n → n ≤ m → scan (s.take m) = .ok value n

theorem Contained.map {α β : Type} {scan : List Char → Scan α} {f : α → β} {s : List Char}
    (h : Contained scan s) : Contained (fun s => (scan s).map f) s := by
  intro value n m hscan hm
  obtain ⟨a, ha, rfl⟩ := Scan.map_ok hscan
  show (scan (s.take m)).map f = _
  rw [h _ _ _ ha hm]
  rfl

/-- The longest part with a property is the same in a front that holds it. -/
theorem takeWhile_take {α : Type} {p : α → Bool} {l : List α} {m : Nat}
    (h : (l.takeWhile p).length ≤ m) : (l.take m).takeWhile p = l.takeWhile p := by
  induction l generalizing m with
  | nil => rw [List.take_nil]
  | cons c l ih =>
    by_cases hc : p c = true
    · rw [List.takeWhile_cons_of_pos hc, List.length_cons] at h
      obtain ⟨m, rfl⟩ := Nat.exists_eq_add_of_lt h
      rw [show _ + m + 1 = (_ + m) + 1 from rfl, List.take_succ_cons,
        List.takeWhile_cons_of_pos hc, List.takeWhile_cons_of_pos hc, ih (Nat.le_add_right _ _)]
    · rw [List.takeWhile_cons_of_neg hc]
      cases m with
      | zero => rfl
      | succ m => rw [List.take_succ_cons, List.takeWhile_cons_of_neg hc]

/-- A character in front of a front is in front of the whole. -/
theorem cons_of_take_eq {α : Type} {l rest : List α} {c : α} {m : Nat} (h : l.take m = c :: rest) :
    ∃ after, l = c :: after ∧ rest = after.take (m - 1) := by
  cases m with
  | zero => exact nomatch h
  | succ m =>
    cases l with
    | nil => exact nomatch h
    | cons d l =>
      rw [List.take_succ_cons] at h
      obtain ⟨rfl, rfl⟩ := List.cons.inj h
      exact ⟨l, rfl, rfl⟩

/-! ### Numbers -/

namespace Numeral

theorem isDigitOf_ten {c : Char} (h : c.isDigit = true) : isDigitOf 10 c = true := by
  rw [Char.isDigit, Bool.and_eq_true, decide_eq_true_eq, decide_eq_true_eq] at h
  have hrange : '0' ≤ c ∧ c ≤ '9' := h
  have hle : c.toNat ≤ 57 := h.2
  rw [isDigitOf, digitValue?, if_pos hrange, Option.filter_some_pos]
  · rfl
  · exact decide_eq_true (show c.toNat - 48 < 10 by omega)

theorem startsWithDigit_of_take {radix m : Nat} {s : List Char}
    (h : startsWithDigit radix (s.take m) = true) : startsWithDigit radix s = true := by
  cases s with
  | nil => rwa [List.take_nil] at h
  | cons c s =>
    cases m with
    | zero => exact nomatch h
    | succ m => exact h

theorem startsWithDigit_take {radix m : Nat} {s : List Char} (h : startsWithDigit radix s = true)
    (hm : 0 < m) : startsWithDigit radix (s.take m) = true := by
  cases s with
  | nil => exact nomatch h
  | cons c s =>
    obtain ⟨m, rfl⟩ := Nat.exists_eq_add_of_lt hm
    exact h

theorem digitRun_pos {radix : Nat} {s : List Char} (h : startsWithDigit radix s = true) :
    0 < (digitRun radix s).2 := by
  cases s with
  | nil => exact nomatch h
  | cons c s =>
    rw [digitRun, if_pos (show isDigitOf radix c = true from h)]
    exact Nat.succ_pos _

theorem digitRun_take {radix m : Nat} {s : List Char} (h : (digitRun radix s).2 ≤ m) :
    digitRun radix (s.take m) = digitRun radix s := by
  induction s generalizing m with
  | nil => rw [List.take_nil]
  | cons c s ih =>
    cases m with
    | zero =>
      rw [digitRun] at h ⊢
      split at h
      · cases h
      · split at h
        · cases h
        · next hdigit hmark => rw [if_neg hdigit, if_neg hmark]; rfl
    | succ m =>
      rw [List.take_succ_cons, digitRun, digitRun]
      rw [digitRun] at h
      by_cases hdigit : isDigitOf radix c = true
      · rw [if_pos hdigit] at h ⊢
        rw [if_pos hdigit, ih (Nat.le_of_succ_le_succ h)]
      rw [if_neg hdigit] at h ⊢
      rw [if_neg hdigit]
      by_cases hmark : c = '_' ∧ startsWithDigit radix s = true
      · rw [if_pos hmark] at h
        have hm := Nat.le_of_succ_le_succ h
        have hstarts : startsWithDigit radix (s.take m) = true :=
          startsWithDigit_take hmark.2 (Nat.lt_of_lt_of_le (digitRun_pos hmark.2) hm)
        rw [if_pos hmark, if_pos ⟨hmark.1, hstarts⟩, ih hm]
      · rw [if_neg hmark, if_neg fun h => hmark ⟨h.1, startsWithDigit_of_take h.2⟩]

theorem closed_take {n k m : Nat} {after : List Char} {literal : Scan TokenKind}
    {kind : TokenKind} (h : closed n after literal = .ok kind k) :
    closed n (after.take m) literal = .ok kind k := by
  cases hfront : after.take m with
  | nil => exact closed_ok h
  | cons c rest =>
    obtain ⟨more, rfl, -⟩ := cons_of_take_eq hfront
    exact h

theorem scanRadix_contained (radix : Nat) (s : List Char) : Contained (scanRadix radix) s := by
  intro kind n m h hm
  unfold scanRadix at h ⊢
  simp only [] at h ⊢
  split at h
  · exact nomatch h
  next hsome =>
  have hrun : (digitRun radix s).2 ≤ m := by
    refine Nat.le_trans ?_ hm
    split at h <;> cases closed_ok h
    · exact Nat.le_succ _
    · exact Nat.le_refl _
  rw [digitRun_take hrun, if_neg hsome, List.drop_take]
  generalize s.drop (digitRun radix s).2 = after at h ⊢
  split at h
  · next more =>
    cases closed_ok h
    rw [← Nat.succ_pred_eq_of_pos (Nat.sub_pos_of_lt hm), List.take_succ_cons]
    exact closed_take h
  · next hne =>
    split
    · next heq =>
      obtain ⟨more, rfl, -⟩ := cons_of_take_eq heq
      exact absurd rfl (hne _)
    · exact closed_take h

theorem exponent_pos {s ds : List Char} {n : Nat} (h : exponent? s = some (ds, n)) : 0 < n := by
  unfold exponent? at h
  split at h
  · cases h
  · split at h
    · split at h
      · cases h
        exact Nat.succ_pos _
      · cases h
    · split at h
      · next c rest _ hdigit =>
        have hstarts : startsWithDigit 10 (c :: rest) = true := isDigitOf_ten hdigit
        have hpos := digitRun_pos hstarts
        rwa [Option.some.inj h] at hpos
      · cases h

theorem exponent_take {s ds : List Char} {n m : Nat} (h : exponent? s = some (ds, n))
    (hm : n ≤ m) : exponent? (s.take m) = some (ds, n) := by
  have hpos := exponent_pos h
  cases s with
  | nil => cases h
  | cons c s =>
    obtain ⟨m, rfl⟩ := Nat.exists_eq_add_of_lt (Nat.lt_of_lt_of_le hpos hm)
    rw [Nat.zero_add] at hm ⊢
    rw [List.take_succ_cons]
    rw [exponent?] at h ⊢
    split at h
    · next hsign =>
      rw [if_pos hsign]
      split at h
      · next hstarts =>
        cases h
        have hm := Nat.le_of_succ_le_succ hm
        have hpos := Nat.lt_of_lt_of_le (digitRun_pos hstarts) hm
        rw [if_pos (startsWithDigit_take hstarts hpos), digitRun_take hm]
      · cases h
    · next hsign =>
      rw [if_neg hsign]
      split at h
      · next hdigit =>
        rw [if_pos hdigit, ← List.take_succ_cons, digitRun_take]
        · exact h
        · rw [Option.some.inj h]
          exact hm
      · cases h

theorem mantissa_take {first : Char} {s : List Char} {m : Nat} (h : (mantissa first s).used ≤ m) :
    mantissa first (s.take m) = mantissa first s := by
  have hrun : (digitRun 10 s).2 ≤ m := by
    refine Nat.le_trans ?_ h
    unfold mantissa
    simp only []
    split
    · exact Nat.le_refl _
    · split
      · exact Nat.le_trans (Nat.le_succ _) (Nat.le_add_right _ _)
      · exact Nat.le_refl _
  unfold mantissa at h ⊢
  simp only [] at h ⊢
  rw [digitRun_take hrun]
  by_cases hpoint : first = '.'
  · rw [if_pos hpoint, if_pos hpoint]
  rw [if_neg hpoint] at h ⊢
  rw [if_neg hpoint, List.drop_take]
  generalize s.drop (digitRun 10 s).2 = after at h ⊢
  split at h
  · next more =>
    have hmore : (digitRun 10 s).2 + 1 + (digitRun 10 more).2 ≤ m := h
    rw [List.take_cons (by omega)]
    simp only []
    rw [digitRun_take (by omega)]
  · next hne =>
    split
    · next rest heq =>
      obtain ⟨more, rfl, -⟩ := cons_of_take_eq heq
      exact absurd rfl (hne _)
    · rfl

theorem withExponent_take {p r : Reading} {after : List Char} {n m : Nat}
    (h : withExponent r after = .ok p n) (hm : p.used ≤ m) :
    withExponent r (after.take (m - r.used)) = .ok p n := by
  cases after with
  | nil => rw [List.take_nil]; exact h
  | cons c rest =>
    rw [withExponent] at h
    split at h
    · next hmark =>
      split at h
      · next text k hexponent =>
        cases h
        have hm : r.used + 1 + k ≤ m := hm
        rw [List.take_cons (by omega), withExponent, if_pos hmark,
          exponent_take hexponent (by omega)]
      · cases h
    · next hmark =>
      cases h
      cases m - p.used with
      | zero => rfl
      | succ k => rw [List.take_succ_cons, withExponent, if_neg hmark]

theorem withExponent_used_le {p r : Reading} {after : List Char} {n : Nat}
    (h : withExponent r after = .ok p n) : r.used ≤ p.used := by
  unfold withExponent at h
  split at h
  · split at h
    · split at h
      · cases h
        exact Nat.le_trans (Nat.le_succ _) (Nat.le_add_right _ _)
      · exact nomatch h
    · cases h
      exact Nat.le_refl _
  · cases h
    exact Nat.le_refl _

/-- A decimal number uses what its digits and its exponent use, at least. -/
theorem scanDecimal_ok {first : Char} {s : List Char} {kind : TokenKind} {n : Nat}
    (h : scanDecimal first s = .ok kind n) : ∃ p k,
      withExponent (mantissa first s) (s.drop (mantissa first s).used) = .ok p k ∧ p.used ≤ n := by
  unfold scanDecimal at h
  simp only [] at h
  cases hread : withExponent (mantissa first s) (s.drop (mantissa first s).used) with
  | error cause k => rw [hread] at h; cases h
  | ok p k =>
    rw [hread] at h
    simp only [Scan.andThen] at h
    refine ⟨p, k, rfl, ?_⟩
    split at h
    · cases closed_ok h
      exact Nat.le_succ _
    · have hnumber := closed_ok h
      split at hnumber
      · cases hnumber
        exact Nat.le_refl _
      · cases hnumber

theorem scanDecimal_contained (first : Char) (s : List Char) : Contained (scanDecimal first) s := by
  intro kind n m h hm
  obtain ⟨p, k, hread, hused⟩ := scanDecimal_ok h
  have hused := Nat.le_trans hused hm
  have hmantissa := Nat.le_trans (withExponent_used_le hread) hused
  unfold scanDecimal at h ⊢
  simp only [] at h ⊢
  rw [hread] at h
  rw [mantissa_take hmantissa, List.drop_take, withExponent_take hread hused]
  simp only [Scan.andThen] at h ⊢
  rw [List.drop_take]
  generalize s.drop p.used = after at h ⊢
  split at h
  · next hwhole =>
    cases closed_ok h
    rw [List.take_cons (Nat.sub_pos_of_lt hm), hwhole]
    exact closed_take h
  · next hne =>
    split
    · next more hwhole heq =>
      obtain ⟨rest, rfl, -⟩ := cons_of_take_eq heq
      exact absurd rfl (hne _ hwhole)
    · exact closed_take h

/-- A fraction without a whole part has a digit. -/
theorem scan_point_pos {s : List Char} {kind : TokenKind} {n : Nat}
    (hdigit : startsWithDigit 10 s = true) (h : scan '.' s = .ok kind n) : 0 < n := by
  rw [scan_of_ne (by decide)] at h
  obtain ⟨p, k, hread, hused⟩ := scanDecimal_ok h
  have hrun : (digitRun 10 s).2 ≤ p.used := withExponent_used_le hread
  exact Nat.lt_of_lt_of_le (digitRun_pos hdigit) (Nat.le_trans hrun hused)

theorem scan_contained (first : Char) (s : List Char) : Contained (scan first) s := by
  intro kind n m h hm
  have hdecimal := scanDecimal_contained first s
  by_cases hfirst : first = '0'
  · subst hfirst
    cases s with
    | nil => rw [List.take_nil]; exact h
    | cons d s =>
      rw [scan_zero] at h
      cases m with
      | zero =>
        cases hradix : radixOfMark? d with
        | none =>
          rw [hradix] at h
          exact hdecimal _ _ _ h hm
        | some radix =>
          rw [hradix] at h
          obtain ⟨k, -, rfl⟩ := Scan.shift_ok h
          omega
      | succ m =>
        rw [List.take_succ_cons, scan_zero]
        cases hradix : radixOfMark? d with
        | none =>
          rw [hradix] at h
          exact hdecimal _ _ _ h hm
        | some radix =>
          rw [hradix] at h
          obtain ⟨k, hscan, rfl⟩ := Scan.shift_ok h
          show (scanRadix radix (s.take m)).shift 1 = _
          rw [scanRadix_contained radix s _ _ _ hscan (by omega)]
          rfl
  · rw [scan_of_ne hfirst] at h ⊢
    exact hdecimal _ _ _ h hm

end Numeral

/-! ### Quoted text -/

namespace Quoted

theorem hexDigits_contained (count code : Nat) (s : List Char) :
    Contained (hexDigits count code) s := by
  intro value n m h hm
  induction s generalizing count code n m with
  | nil => rw [List.take_nil]; exact h
  | cons c s ih =>
    cases count with
    | zero => cases h; rfl
    | succ count =>
      rw [hexDigits] at h
      split at h
      · next d hd =>
        obtain ⟨k, hscan, rfl⟩ := Scan.shift_ok h
        rw [List.take_cons (by omega), hexDigits, hd]
        show (hexDigits count _ (s.take (m - 1))).shift 1 = _
        rw [ih _ _ _ _ hscan (by omega)]
        rfl
      · cases h

theorem scanBraced_contained (s : List Char) : Contained scanBraced s := by
  intro value n m h hm
  unfold scanBraced at h ⊢
  simp only [] at h ⊢
  split at h
  · exact nomatch h
  next hopen =>
  split at h
  · next code hcode =>
    cases h
    have hle : (s.takeWhile (· != '}')).length ≤ s.length := (List.takeWhile_prefix _).length_le
    rw [takeWhile_take (Nat.le_of_succ_le hm), hcode, if_neg]
    rw [List.length_take]
    omega
  · exact nomatch h

theorem scanEscape_pos {s value : List Char} {n : Nat} (h : scanEscape s = .ok value n) :
    0 < n := by
  unfold scanEscape at h
  split at h
  case h_1 => exact nomatch h
  case h_8 | h_13 =>
    split at h
    · cases h; exact Nat.one_pos
    · cases h; exact Nat.one_pos
  case h_9 | h_10 | h_11 =>
    obtain ⟨k, -, rfl⟩ := Scan.shift_ok h
    omega
  all_goals
    cases h
    exact Nat.succ_pos _

/-- An escape is the same in a front that goes on behind it. -/
theorem scanEscape_take {s value : List Char} {n m : Nat} (h : scanEscape s = .ok value n)
    (hm : n < m) : scanEscape (s.take m) = .ok value n := by
  have hpos := scanEscape_pos h
  obtain ⟨m, rfl⟩ : ∃ j, m = j + 2 := ⟨m - 2, by omega⟩
  unfold scanEscape at h
  split at h
  case h_1 => exact nomatch h
  case h_8 rest =>
    cases rest with
    | nil => exact h
    | cons d rest => exact h
  case h_9 rest =>
    obtain ⟨k, hmap, rfl⟩ := Scan.shift_ok h
    obtain ⟨code, hcode, rfl⟩ := Scan.map_ok hmap
    show ((hexDigits 2 0 (rest.take (m + 1))).map _).shift 1 = _
    rw [hexDigits_contained 2 0 rest _ _ _ hcode (by omega)]
    rfl
  case h_10 rest =>
    obtain ⟨k, hmap, rfl⟩ := Scan.shift_ok h
    obtain ⟨code, hcode, rfl⟩ := Scan.map_ok hmap
    show ((scanBraced (rest.take m)).map _).shift 2 = _
    rw [scanBraced_contained rest _ _ _ hcode (by omega)]
    rfl
  case h_11 rest hbrace =>
    obtain ⟨k, hmap, rfl⟩ := Scan.shift_ok h
    obtain ⟨code, hcode, rfl⟩ := Scan.map_ok hmap
    rw [List.take_succ_cons, scanEscape, hexDigits_contained 4 0 rest _ _ _ hcode (by omega)]
    · rfl
    · intro r heq
      obtain ⟨more, rfl, -⟩ := cons_of_take_eq heq
      exact hbrace more rfl
  case h_13 c rest hn' ht hr hb hf hv hzero hx hbrace hu hpair =>
    rw [List.take_succ_cons, scanEscape]
    · exact h
    all_goals first
      | assumption
      | (intro r hc heq
         obtain ⟨more, rfl, -⟩ := cons_of_take_eq heq
         first
           | exact hbrace more hc rfl
           | exact hpair more hc rfl)
  all_goals exact h

theorem scanString_pos {quote : Char} {s value : List Char} {n : Nat}
    (h : scanString quote s = .ok value n) : 0 < n := by
  unfold scanString at h
  split at h
  · cases h
  split at h
  · cases h; exact Nat.one_pos
  split at h
  · split at h
    · obtain ⟨v, k, -, -, rfl⟩ := before_ok h
      omega
    · cases h
  split at h
  · cases h
  · obtain ⟨v, k, -, -, rfl⟩ := before_ok h
    omega

theorem scanString_contained (quote : Char) (s : List Char) : Contained (scanString quote) s := by
  intro value n m h hm
  fun_induction scanString quote s generalizing value n m with
  | case1 => cases h
  | case2 rest =>
    cases h
    rw [List.take_cons hm, scanString, if_pos rfl]
  | case3 rest cs k hescape hquote ih =>
    obtain ⟨v, j, hrest, rfl, rfl⟩ := before_ok h
    have hj := scanString_pos hrest
    rw [List.take_cons (by omega), scanString, if_neg hquote, if_pos rfl,
      scanEscape_take hescape (by omega)]
    simp only []
    rw [List.drop_take, ih _ _ _ hrest (by omega)]
    rfl
  | case4 => cases h
  | case5 => cases h
  | case6 c rest hquote hslash hline ih =>
    obtain ⟨v, j, hrest, rfl, rfl⟩ := before_ok h
    rw [List.take_cons (by omega), scanString, if_neg hquote, if_neg hslash, if_neg hline,
      ih _ _ _ hrest (by omega)]
    rfl

theorem scanPiece_pos {s : List Char} {value : List Char × PieceEnd} {n : Nat}
    (h : scanPiece s = .ok value n) : 0 < n := by
  unfold scanPiece at h
  split at h
  · cases h
  split at h
  · cases h; exact Nat.one_pos
  split at h
  · split at h
    · obtain ⟨k, -, rfl⟩ := Scan.shift_ok h
      omega
    · cases h
  split at h
  · cases h; exact Nat.two_pos
  · obtain ⟨k, -, rfl⟩ := Scan.shift_ok h
    omega

theorem scanPiece_contained (s : List Char) : Contained scanPiece s := by
  intro value n m h hm
  fun_induction scanPiece s generalizing value n m with
  | case1 => cases h
  | case2 rest =>
    cases h
    rw [List.take_cons hm, scanPiece, if_pos rfl]
  | case3 rest cs k hescape hmark ih =>
    obtain ⟨j, hmap, rfl⟩ := Scan.shift_ok h
    obtain ⟨v, hrest, rfl⟩ := Scan.map_ok hmap
    have hj := scanPiece_pos hrest
    rw [List.take_cons (by omega), scanPiece, if_neg hmark, if_pos rfl,
      scanEscape_take hescape (by omega)]
    simp only []
    rw [List.drop_take, ih _ _ _ hrest (by omega)]
    rfl
  | case4 => cases h
  | case5 c rest hmark hslash hopens =>
    cases h
    obtain ⟨rfl, hhead⟩ := hopens
    obtain ⟨more, rfl⟩ := List.head?_eq_some_iff.1 hhead
    obtain ⟨m, rfl⟩ := Nat.exists_eq_add_of_le hm
    rw [Nat.add_comm, List.take_succ_cons, List.take_succ_cons, scanPiece, if_neg hmark,
      if_neg hslash, if_pos ⟨rfl, rfl⟩]
  | case6 c rest hmark hslash hopens ih =>
    obtain ⟨j, hmap, rfl⟩ := Scan.shift_ok h
    obtain ⟨v, hrest, rfl⟩ := Scan.map_ok hmap
    have hopens' : ¬(c = '$' ∧ (rest.take (m - 1)).head? = some '{') := by
      rintro ⟨rfl, hhead⟩
      obtain ⟨inner, hinner⟩ := List.head?_eq_some_iff.1 hhead
      obtain ⟨more, rfl, -⟩ := cons_of_take_eq hinner
      exact hopens ⟨rfl, rfl⟩
    rw [List.take_cons (by omega), scanPiece, if_neg hmark, if_neg hslash, if_neg hopens',
      ih _ _ _ hrest (by omega)]
    rfl

theorem scanPattern_contained (inClass : Bool) (s : List Char) :
    Contained (scanPattern inClass) s := by
  intro value n m h hm
  fun_induction scanPattern inClass s generalizing value n m with
  | case1 => cases h
  | case2 => cases h
  | case3 => cases h
  | case4 => cases h
  | case5 inClass c rest hline hescaped ih =>
    obtain ⟨v, j, hrest, rfl, rfl⟩ := before_ok h
    obtain ⟨m, rfl⟩ : ∃ k, m = k + 2 := ⟨m - 2, by omega⟩
    rw [List.take_succ_cons, List.take_succ_cons, scanPattern, if_neg (by decide), if_pos rfl]
    refine (if_neg hline).trans ?_
    rw [ih _ _ _ hrest (by omega)]
    rfl
  | case6 inClass c rest hline hslash hclose =>
    cases h
    rw [List.take_cons hm, scanPattern_plain hline hslash, if_pos hclose]
  | case7 =>
    next hline hslash hclose _ ih =>
    obtain ⟨v, j, hrest, rfl, rfl⟩ := before_ok h
    rw [List.take_cons (by omega), scanPattern_plain hline hslash, if_neg hclose]
    show before _ 1 (scanPattern _ _) = _
    rw [ih _ _ _ hrest (by omega)]
    rfl

theorem scanRegex_contained (s : List Char) : Contained scanRegex s := by
  intro value n m h hm
  unfold scanRegex at h ⊢
  cases hscan : scanPattern false s with
  | error cause k => rw [hscan] at h; exact nomatch h
  | ok pattern k =>
    rw [hscan] at h
    cases h
    rw [scanPattern_contained false s _ _ _ hscan (by omega)]
    simp only [Scan.andThen]
    rw [List.drop_take, takeWhile_take (by omega)]

end Quoted

/-! ### Tokens -/

namespace Lexer

theorem scanWord_contained (first : Char) (s : List Char) : Contained (scanWord first) s := by
  intro value n m h hm
  unfold scanWord at h ⊢
  simp only [] at h ⊢
  split at h
  · exact nomatch h
  next hslash =>
  cases h
  rw [takeWhile_take hm, if_neg]
  rw [List.drop_take]
  intro hhead
  obtain ⟨inner, hinner⟩ := List.head?_eq_some_iff.1 hhead
  obtain ⟨more, hmore, -⟩ := cons_of_take_eq hinner
  exact hslash (by rw [hmore]; rfl)

/-- Whether a text is cut between a point and a digit behind it. -/
def CutsFraction (s : List Char) (m : Nat) : Prop :=
  s.take m = ['.'] ∧ Numeral.startsWithDigit 10 (s.drop m) = true

/-- Only one mark is spelled so. -/
theorem question_dot : ∀ m ∈ marks, m.1 = ['?', '.'] → (m.2 == .punct .questionDot) = true := by
  decide +kernel

theorem mark_take {first : Char} {s text : List Char} {kind : TokenKind} {m : Nat}
    (h : mark? (first :: s) = some (text, kind)) (hm : text.length ≤ m + 1)
    (hcut : text.length < m + 1 → ¬CutsFraction s m) :
    mark? (first :: s.take m) = some (text, kind) := by
  obtain ⟨hfits, before, behind, hmarks, hbefore⟩ := List.find?_eq_some_iff_append.1 h
  refine List.find?_eq_some_iff_append.2 ⟨?_, before, behind, hmarks, fun mark hmem => ?_⟩
  · rw [Bool.and_eq_true] at hfits ⊢
    obtain ⟨hfront, hfraction⟩ := hfits
    refine ⟨?_, ?_⟩
    · rw [List.isPrefixOf_iff_prefix] at hfront ⊢
      rw [← List.take_succ_cons]
      exact List.prefix_take_iff.2 ⟨hfront, hm⟩
    · rw [Bool.not_eq_true', Bool.and_eq_false_imp] at hfraction ⊢
      intro hkind
      refine Bool.eq_false_iff.2 fun hdigit => ?_
      rw [← List.take_succ_cons, List.drop_take] at hdigit
      exact Bool.eq_false_iff.1 (hfraction hkind) (Numeral.startsWithDigit_of_take hdigit)
  · have hno := hbefore mark hmem
    rw [Bool.not_eq_true', ← Bool.not_eq_true, Bool.and_eq_true, not_and] at hno ⊢
    intro hfront
    rw [← List.take_succ_cons, List.isPrefixOf_iff_prefix] at hfront
    obtain ⟨hfront, hlength⟩ := List.prefix_take_iff.1 hfront
    have hno := hno (List.isPrefixOf_iff_prefix.2 hfront)
    rw [Bool.not_eq_true', Bool.not_eq_false, Bool.and_eq_true] at hno ⊢
    obtain ⟨hkind, hdigit⟩ := hno
    refine ⟨hkind, ?_⟩
    -- the mark is `?.` before a digit, and that digit is still there
    have hmark : mark.1 = ['?', '.'] := by
      have hspelled := (marks_spelled mark (hmarks ▸ List.mem_append_left _ hmem)).2
      rw [beq_iff_eq.1 hkind] at hspelled
      exact (Option.some.inj hspelled).symm
    rw [hmark] at hfront hlength
    obtain ⟨rest, hrest⟩ := hfront
    obtain ⟨rfl, rfl⟩ := List.cons.inj hrest
    cases m with
    | zero => exact absurd hlength (by decide)
    | succ m =>
      cases m with
      | zero =>
        refine absurd ⟨rfl, hdigit⟩ (hcut (Nat.lt_of_le_of_ne hm fun hlength => ?_))
        -- the mark that is found would be `?.` itself, which does not stand before a digit
        rw [Bool.and_eq_true] at hfits
        have htext : text = ['?', '.'] := by
          have hfront := List.prefix_iff_eq_take.1 (List.isPrefixOf_iff_prefix.1 hfits.1)
          rwa [hlength] at hfront
        have hquestion := question_dot _ (List.mem_of_find?_eq_some h) htext
        rw [hquestion, Bool.not_eq_true', Bool.true_and] at hfits
        exact nomatch hdigit.symm.trans hfits.2
      | succ m => exact Numeral.startsWithDigit_take hdigit (Nat.succ_pos m)

theorem scanMark_take {first : Char} {s : List Char} {kind : TokenKind} {n m : Nat}
    (h : scanMark first s = .ok kind n) (hm : n ≤ m) (hcut : n < m → ¬CutsFraction s m) :
    scanMark first (s.take m) = .ok kind n := by
  unfold scanMark at h ⊢
  split at h
  · next text kind hmark =>
    cases h
    have hpos : 0 < text.length :=
      List.length_pos_iff.2 (marks_spelled _ (List.mem_of_find?_eq_some hmark)).1
    have hcut : text.length < m + 1 → ¬CutsFraction s m := fun hlt => hcut (by omega)
    rw [mark_take hmark (by omega) hcut]
  · split at h <;> exact nomatch h

/-- A token is the same in a front of the text that holds it. -/
theorem scanToken_take {regexAllowed : Bool} {braces : List Brace} {first : Char} {s : List Char}
    {kind : TokenKind} {n m : Nat} (h : scanToken regexAllowed braces first s = .ok kind n)
    (hm : n ≤ m) (hcut : n < m → ¬CutsFraction s m) :
    scanToken regexAllowed braces first (s.take m) = .ok kind n := by
  unfold scanToken at h ⊢
  split at h
  · next hfirst =>
    rw [if_pos hfirst]
    exact (Quoted.scanPiece_contained s).map _ _ _ h hm
  next hfirst =>
  rw [if_neg hfirst]
  split at h
  · next hfirst =>
    rw [if_pos hfirst]
    exact (Quoted.scanString_contained first s).map _ _ _ h hm
  next hfirst =>
  rw [if_neg hfirst]
  split at h
  · next hfirst =>
    rw [if_pos hfirst]
    exact (Quoted.scanPiece_contained s).map _ _ _ h hm
  next hfirst =>
  rw [if_neg hfirst]
  split at h
  · next hdigit =>
    rw [if_pos]
    · exact Numeral.scan_contained first s _ _ _ h hm
    · refine hdigit.imp id fun hpoint => ⟨hpoint.1, ?_⟩
      rw [hpoint.1] at h
      have hpos := Numeral.scan_point_pos hpoint.2 h
      exact Numeral.startsWithDigit_take hpoint.2 (Nat.lt_of_lt_of_le hpos hm)
  next hdigit =>
  rw [if_neg fun h => hdigit (h.imp id fun h => ⟨h.1, Numeral.startsWithDigit_of_take h.2⟩)]
  split at h
  · next hfirst =>
    rw [if_pos hfirst]
    exact Quoted.scanRegex_contained s _ _ _ h hm
  next hfirst =>
  rw [if_neg hfirst]
  split at h
  · next hfirst =>
    rw [if_pos hfirst]
    exact scanWord_contained first s _ _ _ h hm
  next hfirst =>
  rw [if_neg hfirst]
  exact scanMark_take h hm hcut

end Lexer

end TemplateVars
