/-
The tokens of a text do not depend on what stands behind it.

A reader that succeeds on a text succeeds in the same way if a blank and any other
text follow, since no token goes on with a blank.

* `Settled` — a reader of quoted text ends within the text, whatever follows;
* `SettledByBlank` — any reader of a token does so if a blank follows;
* `Lexer.scanToken_settled` — so does the reader that the lexer calls.

Design notes: strings, templates and patterns are closed by a mark of their own, so any
text may follow them.  Numbers, words and marks end where nothing goes on with them,
and it is there that the blank is needed.
-/
import Mathlib.Data.List.Find
import TemplateVars.Proofs.Token.Gap
import TemplateVars.Proofs.Token.Name
import TemplateVars.Proofs.Token.Pass

namespace TemplateVars

open Text

/-! ### Blanks -/

section Blanks

variable {c d : Char}

theorem ne_of_blank (hc : isBlank c = true) (hd : isBlank d = false) : c ≠ d := by
  rintro rfl
  exact nomatch hc.symm.trans hd

/-- No identifier goes on with a blank. -/
theorem not_part_of_blank (hc : isBlank c = true) : isIdentifierPart c = false := by
  refine Bool.eq_false_iff.2 fun hpart => ?_
  rw [isBlank, not_whiteSpace_of_part hpart, Bool.false_or, beq_iff_eq] at hc
  subst hc
  have hmark : isIdentifierPart '\ufeff' = false := by decide +kernel
  cases hpart.symm.trans hmark

/-- The code points of ASCII digits and letters. -/
def digitRanges : CodePoints := [(48, 57), (65, 90), (97, 122)]

theorem contains_digitRanges {n : Nat} : digitRanges.contains n = true ↔
    48 ≤ n ∧ n ≤ 57 ∨ 65 ≤ n ∧ n ≤ 90 ∨ 97 ≤ n ∧ n ≤ 122 := by
  simp [digitRanges, CodePoints.contains]
  omega

theorem not_digitRanges_of_blank (hc : isBlank c = true) :
    ¬digitRanges.contains c.toNat = true := by
  intro hdigit
  have hno : (!isBlank c) = true :=
    CodePoints.of_all (p := fun c => !isBlank c) (by decide +kernel) hdigit
  rw [hc] at hno
  exact nomatch hno

/-- No number goes on with a blank. -/
theorem not_digitOf_blank (hc : isBlank c = true) (radix : Nat) : isDigitOf radix c = false := by
  refine Bool.eq_false_iff.2 fun h => not_digitRanges_of_blank hc (contains_digitRanges.2 ?_)
  have hdigit : ('0' ≤ c ∧ c ≤ '9') ∨ ('a' ≤ c ∧ c ≤ 'z') ∨ ('A' ≤ c ∧ c ≤ 'Z') := by
    refine Decidable.byContradiction fun hno => ?_
    obtain ⟨hdigit, hno⟩ := not_or.1 hno
    obtain ⟨hlower, hupper⟩ := not_or.1 hno
    rw [isDigitOf, digitValue?, if_neg hdigit, if_neg hlower, if_neg hupper] at h
    exact nomatch h
  rcases hdigit with hdigit | hlower | hupper
  · exact .inl hdigit
  · exact .inr (.inr hlower)
  · exact .inr (.inl hupper)

theorem not_isDigit_of_blank (hc : isBlank c = true) : c.isDigit = false := by
  refine Bool.eq_false_iff.2 fun h => not_digitRanges_of_blank hc (contains_digitRanges.2 (.inl ?_))
  rw [Char.isDigit, Bool.and_eq_true, decide_eq_true_eq, decide_eq_true_eq] at h
  exact h

end Blanks

theorem takeWhile_append_stop {α : Type} {p : α → Bool} {c : α} (hc : p c = false) (s e : List α) :
    (s ++ c :: e).takeWhile p = s.takeWhile p := by
  rw [List.takeWhile_append, List.takeWhile_cons_of_neg (Bool.eq_false_iff.1 hc), List.append_nil]
  split
  · next h => exact ((List.takeWhile_prefix p).eq_of_length h).symm
  · rfl

theorem append_eq_cons_of_ne {α : Type} {c x : α} (hx : c ≠ x) {s e after : List α}
    (h : s ++ c :: e = x :: after) : ∃ inner, s = x :: inner ∧ after = inner ++ c :: e := by
  cases s with
  | nil => exact absurd (List.cons.inj h).1 hx
  | cons d s =>
    obtain ⟨rfl, rfl⟩ := List.cons.inj h
    exact ⟨s, rfl, rfl⟩

/-! ### Numbers -/

namespace Numeral

variable {c : Char} (hc : isBlank c = true) (e : List Char)
include hc

theorem startsWithDigit_append (radix : Nat) (s : List Char) :
    startsWithDigit radix (s ++ c :: e) = startsWithDigit radix s := by
  cases s with
  | nil => exact not_digitOf_blank hc radix
  | cons d s => rfl

theorem digitRun_append (radix : Nat) (s : List Char) :
    digitRun radix (s ++ c :: e) = digitRun radix s := by
  induction s with
  | nil =>
    show digitRun radix (c :: e) = ([], 0)
    rw [digitRun, if_neg (Bool.eq_false_iff.1 (not_digitOf_blank hc radix)),
      if_neg fun h => ne_of_blank hc (by decide) h.1]
  | cons d s ih =>
    rw [List.cons_append, digitRun, digitRun, ih, startsWithDigit_append hc]

omit hc in
theorem digitRun_le (radix : Nat) (s : List Char) : (digitRun radix s).2 ≤ s.length := by
  fun_induction digitRun radix s with
  | case1 => exact Nat.le_refl _
  | case4 => exact Nat.zero_le _
  | _ =>
    next heq ih =>
    rw [heq] at ih
    exact Nat.succ_le_succ ih

theorem closed_append (n : Nat) (after : List Char) (literal : Scan TokenKind) :
    closed n (after ++ c :: e) literal = closed n after literal := by
  cases after with
  | nil =>
    refine if_neg fun h => ?_
    rcases h with hstart | hdigit
    · exact nomatch (isIdentifierPart_of_start hstart).symm.trans (not_part_of_blank hc)
    · exact nomatch hdigit.symm.trans (not_isDigit_of_blank hc)
  | cons d after => rfl

theorem scanRadix_append (radix : Nat) (s : List Char) :
    scanRadix radix (s ++ c :: e) = scanRadix radix s := by
  unfold scanRadix
  rw [digitRun_append hc]
  have hdrop : (s ++ c :: e).drop (digitRun radix s).2 = s.drop (digitRun radix s).2 ++ c :: e :=
    List.drop_append_of_le_length (digitRun_le radix s)
  simp only []
  split
  · rfl
  · rw [hdrop]
    generalize s.drop (digitRun radix s).2 = after
    split
    · next heq =>
      obtain ⟨inner, rfl, rfl⟩ := append_eq_cons_of_ne (ne_of_blank hc (by decide)) heq
      exact closed_append hc e _ inner _
    · next hne =>
      split
      · exact absurd rfl (hne _)
      · exact closed_append hc e _ after _

theorem exponent_append (s : List Char) : exponent? (s ++ c :: e) = exponent? s := by
  cases s with
  | nil =>
    show exponent? (c :: e) = none
    rw [exponent?, if_neg fun h => h.elim (ne_of_blank hc (by decide)) (ne_of_blank hc (by decide)),
      if_neg (Bool.eq_false_iff.1 (not_isDigit_of_blank hc))]
  | cons d s =>
    rw [List.cons_append, exponent?, exponent?, startsWithDigit_append hc, digitRun_append hc,
      ← List.cons_append, digitRun_append hc]

omit hc in
theorem exponent_le {s ds : List Char} {n : Nat} (h : exponent? s = some (ds, n)) :
    n ≤ s.length := by
  unfold exponent? at h
  split at h
  · cases h
  · next d s =>
    have hsign := digitRun_le 10 s
    have hdigits := digitRun_le 10 (d :: s)
    split at h
    · split at h
      · cases h
        exact Nat.succ_le_succ hsign
      · cases h
    · split at h
      · rw [Option.some.inj h] at hdigits
        exact hdigits
      · cases h

omit hc in
theorem mantissa_le (first : Char) (s : List Char) : (mantissa first s).used ≤ s.length := by
  have hle := digitRun_le 10 s
  unfold mantissa
  simp only []
  split
  · exact hle
  · split
    · next after hdrop =>
      have hafter := digitRun_le 10 after
      have hlength := congrArg List.length hdrop
      rw [List.length_drop, List.length_cons] at hlength
      show (digitRun 10 s).2 + 1 + (digitRun 10 after).2 ≤ s.length
      omega
    · exact hle

theorem mantissa_append (first : Char) (s : List Char) :
    mantissa first (s ++ c :: e) = mantissa first s := by
  unfold mantissa
  rw [digitRun_append hc]
  have hdrop : (s ++ c :: e).drop (digitRun 10 s).2 = s.drop (digitRun 10 s).2 ++ c :: e :=
    List.drop_append_of_le_length (digitRun_le 10 s)
  simp only []
  split
  · rfl
  · rw [hdrop]
    generalize s.drop (digitRun 10 s).2 = after
    split
    · next heq =>
      obtain ⟨inner, rfl, rfl⟩ := append_eq_cons_of_ne (ne_of_blank hc (by decide)) heq
      rw [digitRun_append hc]
      rfl
    · next hne =>
      split
      · exact absurd rfl (hne _)
      · rfl

theorem withExponent_append (m : Reading) (after : List Char) :
    withExponent m (after ++ c :: e) = withExponent m after := by
  cases after with
  | nil => exact if_neg fun h => h.elim (ne_of_blank hc (by decide)) (ne_of_blank hc (by decide))
  | cons d after => rw [List.cons_append, withExponent, withExponent, exponent_append hc]

omit hc in
theorem withExponent_le {m p : Reading} {after : List Char} {n : Nat}
    (h : withExponent m after = .ok p n) : p.used ≤ m.used + after.length := by
  unfold withExponent at h
  split at h
  · next d rest =>
    split at h
    · split at h
      · next hexponent =>
        cases h
        have hle := exponent_le hexponent
        show m.used + 1 + _ ≤ m.used + (rest.length + 1)
        omega
      · exact nomatch h
    · cases h
      exact Nat.le_add_right _ _
  · cases h
    exact Nat.le_add_right _ _

omit hc in
theorem withExponent_used {first : Char} {s : List Char} {p : Reading} {n : Nat}
    (h : withExponent (mantissa first s) (s.drop (mantissa first s).used) = .ok p n) :
    p.used ≤ s.length := by
  have hexponent := withExponent_le h
  have hmantissa := mantissa_le first s
  rw [List.length_drop] at hexponent
  omega

theorem scanDecimal_append (first : Char) (s : List Char) :
    scanDecimal first (s ++ c :: e) = scanDecimal first s := by
  unfold scanDecimal
  simp only []
  have hdrop : ∀ {n}, n ≤ s.length → (s ++ c :: e).drop n = s.drop n ++ c :: e :=
    fun h => List.drop_append_of_le_length h
  rw [mantissa_append hc, hdrop (mantissa_le first s), withExponent_append hc]
  cases hread : withExponent (mantissa first s) (s.drop (mantissa first s).used) with
  | error cause n => rfl
  | ok p n =>
    simp only [Scan.andThen]
    rw [hdrop (withExponent_used hread)]
    generalize s.drop p.used = after
    -- whatever the digits are worth, only an `n` behind them is read on
    cases Number.ofDecimalText? p.text with
    | none | some _ =>
      dsimp only
      split
      · next hwhole heq =>
        obtain ⟨inner, rfl, rfl⟩ := append_eq_cons_of_ne (ne_of_blank hc (by decide)) heq
        rw [hwhole]
        exact closed_append hc e _ inner _
      · next hne =>
        split
        · next hwhole => exact absurd rfl (hne _ hwhole)
        · exact closed_append hc e _ _ _

theorem radixOfMark_blank : radixOfMark? c = none := by
  unfold radixOfMark?
  split
  all_goals first
    | rfl
    | exact absurd hc (by decide)

omit hc in
theorem scan_zero (d : Char) (s : List Char) : scan '0' (d :: s) = match radixOfMark? d with
    | some radix => (scanRadix radix s).shift 1
    | none => scanDecimal '0' (d :: s) := rfl

omit hc in
theorem scan_of_ne {first : Char} (h : first ≠ '0') (s : List Char) :
    scan first s = scanDecimal first s := by
  unfold scan
  split
  · exact absurd rfl h
  · rfl

/-- A number is the same with a blank behind it. -/
theorem scan_append (first : Char) (s : List Char) : scan first (s ++ c :: e) = scan first s := by
  have hdecimal := scanDecimal_append hc e first s
  by_cases hfirst : first = '0'
  · subst hfirst
    cases s with
    | nil =>
      rw [List.nil_append, scan_zero, radixOfMark_blank hc]
      exact hdecimal
    | cons d s =>
      rw [List.cons_append, scan_zero, scan_zero, ← List.cons_append, hdecimal]
      cases radixOfMark? d with
      | none => rfl
      | some radix => exact congrArg (Scan.shift 1) (scanRadix_append hc e radix s)
  · rw [scan_of_ne hfirst, scan_of_ne hfirst, hdecimal]

omit hc in
theorem closed_ok {n m : Nat} {after : List Char} {literal : Scan TokenKind} {kind : TokenKind}
    (h : closed n after literal = .ok kind m) : literal = .ok kind m := by
  unfold closed at h
  split at h
  · split at h
    · exact nomatch h
    · exact h
  · exact h

omit hc in
theorem scanRadix_le {radix : Nat} {s : List Char} {kind : TokenKind} {n : Nat}
    (h : scanRadix radix s = .ok kind n) : n ≤ s.length := by
  have hle := digitRun_le radix s
  unfold scanRadix at h
  simp only [] at h
  split at h
  · exact nomatch h
  · split at h
    · next after hdrop =>
      have hlength := congrArg List.length hdrop
      rw [List.length_drop, List.length_cons] at hlength
      cases closed_ok h
      omega
    · cases closed_ok h
      exact hle

omit hc in
theorem scanDecimal_le {first : Char} {s : List Char} {kind : TokenKind} {n : Nat}
    (h : scanDecimal first s = .ok kind n) : n ≤ s.length := by
  unfold scanDecimal at h
  simp only [] at h
  cases hread : withExponent (mantissa first s) (s.drop (mantissa first s).used) with
  | error cause n => rw [hread] at h; exact nomatch h
  | ok p m =>
    have hp := withExponent_used hread
    rw [hread] at h
    simp only [Scan.andThen] at h
    split at h
    · next after _ hdrop =>
      have hlength := congrArg List.length hdrop
      rw [List.length_drop, List.length_cons] at hlength
      cases closed_ok h
      omega
    · have hnumber := closed_ok h
      split at hnumber
      · cases hnumber
        exact hp
      · exact nomatch hnumber

omit hc in
/-- A number takes no more than there is. -/
theorem scan_le {first : Char} {s : List Char} {kind : TokenKind} {n : Nat}
    (h : scan first s = .ok kind n) : n ≤ s.length := by
  by_cases hfirst : first = '0'
  · subst hfirst
    cases s with
    | nil => exact scanDecimal_le (show scanDecimal '0' [] = .ok kind n from h)
    | cons d s =>
      rw [scan_zero] at h
      split at h
      · next radix _ =>
        cases hradix : scanRadix radix s with
        | error cause m => rw [hradix] at h; exact nomatch h
        | ok k m =>
          rw [hradix] at h
          cases h
          have := scanRadix_le hradix
          rw [List.length_cons]
          omega
      · exact scanDecimal_le h
  · rw [scan_of_ne hfirst] at h
    exact scanDecimal_le h

end Numeral

/-! ### Quoted text -/

/-- Whether a reader that succeeds on a text does so within it, whatever follows. -/
def Settled {α : Type} (scan : List Char → Scan α) (s : List Char) : Prop :=
  ∀ value n, scan s = .ok value n → n ≤ s.length ∧ ∀ e, scan (s ++ e) = .ok value n

namespace Settled

variable {α β : Type} {scan : List Char → Scan α} {s : List Char}

theorem of_error {cause : LexError} {n : Nat} (h : scan s = .error cause n) : Settled scan s :=
  fun _ _ hok => nomatch h.symm.trans hok

theorem of_ok {value : α} {n : Nat} (hn : n ≤ s.length) (h : ∀ e, scan (s ++ e) = .ok value n) :
    Settled scan s := by
  intro value' n' hscan
  have hhere := h []
  rw [List.append_nil, hscan] at hhere
  cases hhere
  exact ⟨hn, h⟩

/-- A reader that takes some characters, the same ones whatever follows, and goes on as
another reader does. -/
theorem behind {inner : List Char → Scan β} {t : List Char} {f : β → α} {k : Nat}
    (ht : Settled inner t) (h : scan s = ((inner t).map f).shift k)
    (hmore : ∀ b m, inner t = .ok b m →
      k + t.length ≤ s.length ∧ ∀ e, scan (s ++ e) = ((inner (t ++ e)).map f).shift k) :
    Settled scan s := by
  intro value n hscan
  rw [h] at hscan
  obtain ⟨m, hmap, rfl⟩ := Scan.shift_ok hscan
  obtain ⟨b, hinner, rfl⟩ := Scan.map_ok hmap
  obtain ⟨hle, hstep⟩ := hmore b m hinner
  obtain ⟨hm, hagain⟩ := ht b m hinner
  refine ⟨by omega, fun e => ?_⟩
  rw [hstep e, hagain e]
  rfl

end Settled

namespace Quoted

theorem hexDigits_settled (count code : Nat) (s : List Char) :
    Settled (hexDigits count code) s := by
  induction s generalizing count code with
  | nil =>
    intro value n h
    cases count with
    | zero => cases h; exact ⟨Nat.le_refl _, fun e => by cases e <;> rfl⟩
    | succ count => exact nomatch h
  | cons c s ih =>
    intro value n h
    cases count with
    | zero => cases h; exact ⟨Nat.zero_le _, fun e => rfl⟩
    | succ count =>
      rw [hexDigits] at h
      split at h
      · next d hd =>
        obtain ⟨m, hm, rfl⟩ := Scan.shift_ok h
        obtain ⟨hle, hmore⟩ := ih _ _ _ _ hm
        refine ⟨by rw [List.length_cons]; omega, fun e => ?_⟩
        rw [List.cons_append, hexDigits, hd]
        show (hexDigits count (code * 16 + d) (s ++ e)).shift 1 = _
        rw [hmore e]
        rfl
      · exact nomatch h

theorem scanBraced_settled (s : List Char) : Settled scanBraced s := by
  intro value n h
  unfold scanBraced at h
  simp only [] at h
  have hle : (s.takeWhile (· != '}')).length ≤ s.length := (List.takeWhile_prefix _).length_le
  split at h
  · exact nomatch h
  · next hne =>
    -- the brace that closes the escape is found in the text
    have hlt := Nat.lt_of_le_of_ne hle hne
    split at h
    · next code hcode =>
      cases h
      refine ⟨hlt, fun e => ?_⟩
      unfold scanBraced
      simp only [List.takeWhile_append, if_neg hne, hcode]
      rw [if_neg]
      rw [List.length_append]
      omega
    · exact nomatch h

/-- An escape behind which something is left does not depend on what follows that. -/
theorem scanEscape_append {s value : List Char} {n : Nat} (h : scanEscape s = .ok value n)
    (hn : n < s.length) (e : List Char) : scanEscape (s ++ e) = .ok value n := by
  unfold scanEscape at h
  split at h
  case h_1 => exact nomatch h
  case h_8 rest =>
    cases rest with
    | nil =>
      cases h
      exact absurd hn (Nat.lt_irrefl _)
    | cons d rest => exact h
  case h_9 rest =>
    obtain ⟨m, hmap, rfl⟩ := Scan.shift_ok h
    obtain ⟨code, hcode, rfl⟩ := Scan.map_ok hmap
    show ((hexDigits 2 0 (rest ++ e)).map _).shift 1 = _
    rw [((hexDigits_settled 2 0 rest) _ _ hcode).2 e]
    rfl
  case h_10 rest =>
    obtain ⟨m, hmap, rfl⟩ := Scan.shift_ok h
    obtain ⟨code, hcode, rfl⟩ := Scan.map_ok hmap
    show ((scanBraced (rest ++ e)).map _).shift 2 = _
    rw [(scanBraced_settled rest _ _ hcode).2 e]
    rfl
  case h_11 rest hbrace =>
    obtain ⟨m, hmap, rfl⟩ := Scan.shift_ok h
    obtain ⟨code, hcode, rfl⟩ := Scan.map_ok hmap
    have hmore := ((hexDigits_settled 4 0 rest) _ _ hcode).2 e
    cases rest with
    | nil => exact nomatch hcode
    | cons d rest =>
      rw [List.cons_append, List.cons_append, scanEscape, ← List.cons_append, hmore]
      · rfl
      · rintro _ ⟨⟩
        exact hbrace rest rfl
  case h_13 c rest hn' ht hr hb hf hv hzero hx hbrace hu hpair =>
    have hone : n = 1 := by
      split at h
      · cases h; rfl
      · cases h; rfl
    cases rest with
    | nil => exact absurd (hone ▸ hn) (Nat.lt_irrefl _)
    | cons d rest =>
      rw [List.cons_append, List.cons_append, scanEscape]
      · exact h
      all_goals first
        | assumption
        | (rintro _ hc ⟨⟩
           first
             | exact hbrace rest hc rfl
             | exact hpair rest hc rfl)
  all_goals exact h

/-- Behind an escape something is read, so the escape ends within the text. -/
theorem lt_of_drop_ok {α : Type} {scan : List Char → Scan α} {cause : LexError} {k : Nat}
    (hnil : scan [] = .error cause k) {s : List Char} {value : α} {n m : Nat}
    (h : scan (s.drop n) = .ok value m) : n < s.length := by
  refine Nat.lt_of_not_le fun hle => ?_
  rw [List.drop_eq_nil_of_le hle, hnil] at h
  exact nomatch h

theorem scanString_settled (quote : Char) (s : List Char) : Settled (scanString quote) s := by
  have hnil : scanString quote [] = .error .unterminatedString 0 := by rw [scanString]
  fun_induction scanString quote s with
  | case1 => exact .of_error hnil
  | case2 rest =>
    have hclose : ∀ rest, scanString quote (quote :: rest) = .ok [] 1 := fun rest => by
      rw [scanString, if_pos rfl]
    exact .of_ok (Nat.succ_le_succ (Nat.zero_le _)) fun e => hclose (rest ++ e)
  | case3 rest cs k hescape hquote ih =>
    have hstep : scanString quote ('\\' :: rest) =
        before cs (1 + k) (scanString quote (rest.drop k)) := by
      rw [scanString, if_neg hquote, if_pos rfl, hescape]
    refine ih.behind hstep fun v m hrest => ?_
    have hlt := lt_of_drop_ok hnil hrest
    refine ⟨by rw [List.length_cons, List.length_drop]; omega, fun e => ?_⟩
    rw [List.cons_append, scanString, if_neg hquote, if_pos rfl, scanEscape_append hescape hlt,
      ← List.drop_append_of_le_length (Nat.le_of_lt hlt)]
    rfl
  | case4 rest cause k hescape hquote =>
    exact .of_error (by rw [scanString, if_neg hquote, if_pos rfl, hescape])
  | case5 c rest hquote hslash hline =>
    exact .of_error (by rw [scanString, if_neg hquote, if_neg hslash, if_pos hline])
  | case6 c rest hquote hslash hline ih =>
    have hstep : ∀ rest, scanString quote (c :: rest) = before [c] 1 (scanString quote rest) :=
      fun rest => by rw [scanString, if_neg hquote, if_neg hslash, if_neg hline]
    refine ih.behind (hstep rest) fun v m _ => ⟨?_, fun e => hstep (rest ++ e)⟩
    rw [List.length_cons, Nat.add_comm]

theorem scanPiece_settled (s : List Char) : Settled scanPiece s := by
  have hnil : scanPiece [] = .error .unterminatedTemplate 0 := by rw [scanPiece]
  fun_induction scanPiece s with
  | case1 => exact .of_error hnil
  | case2 rest =>
    have hclose : ∀ rest, scanPiece (backtick :: rest) = .ok ([], .closed) 1 := fun rest => by
      rw [scanPiece, if_pos rfl]
    exact .of_ok (Nat.succ_le_succ (Nat.zero_le _)) fun e => hclose (rest ++ e)
  | case3 rest cs k hescape hmark ih =>
    have hstep : scanPiece ('\\' :: rest) =
        ((scanPiece (rest.drop k)).map fun p => (cs ++ p.1, p.2)).shift (1 + k) := by
      rw [scanPiece, if_neg hmark, if_pos rfl, hescape]
    refine ih.behind hstep fun v m hrest => ?_
    have hlt := lt_of_drop_ok hnil hrest
    refine ⟨by rw [List.length_cons, List.length_drop]; omega, fun e => ?_⟩
    rw [List.cons_append, scanPiece, if_neg hmark, if_pos rfl, scanEscape_append hescape hlt,
      ← List.drop_append_of_le_length (Nat.le_of_lt hlt)]
  | case4 rest cause k hescape hmark =>
    exact .of_error (by rw [scanPiece, if_neg hmark, if_pos rfl, hescape])
  | case5 c rest hmark hslash hopens =>
    cases rest with
    | nil => cases hopens.2
    | cons d rest =>
      have hend : ∀ rest, scanPiece (c :: d :: rest) = .ok ([], .substitution) 2 := fun rest => by
        rw [scanPiece, if_neg hmark, if_neg hslash]
        exact if_pos hopens
      exact .of_ok (Nat.succ_le_succ (Nat.succ_le_succ (Nat.zero_le _))) fun e => hend (rest ++ e)
  | case6 c rest hmark hslash hopens ih =>
    have hstep : ∀ rest, ¬(c = '$' ∧ rest.head? = some '{') → scanPiece (c :: rest) =
        ((scanPiece rest).map fun p => (c :: p.1, p.2)).shift 1 := fun rest hopens => by
      rw [scanPiece, if_neg hmark, if_neg hslash, if_neg hopens]
    refine ih.behind (hstep rest hopens) fun v m hrest => ⟨?_, fun e => hstep (rest ++ e) ?_⟩
    · rw [List.length_cons, Nat.add_comm]
    · cases rest with
      | nil => cases hnil.symm.trans hrest
      | cons d rest => exact hopens

theorem scanPattern_line {inClass : Bool} {c : Char} (hline : isLineTerminator c = true)
    (rest : List Char) : scanPattern inClass (c :: rest) = .error .unterminatedRegex 0 := by
  rw [scanPattern.eq_def]
  exact if_pos hline

/-- A character of a pattern that is no backslash. -/
theorem scanPattern_plain {inClass : Bool} {c : Char} (hline : ¬isLineTerminator c = true)
    (hslash : ¬c = '\\') (rest : List Char) : scanPattern inClass (c :: rest) =
      if c = '/' ∧ !inClass then .ok [] 1
      else before [c] 1
        (scanPattern (if c = '[' then true else if c = ']' then false else inClass) rest) := by
  rw [scanPattern.eq_def]
  exact (if_neg hline).trans (if_neg hslash)

theorem scanPattern_settled (inClass : Bool) (s : List Char) : Settled (scanPattern inClass) s := by
  fun_induction scanPattern inClass s with
  | case1 => exact .of_error rfl
  | case2 inClass c rest hline => exact .of_error (scanPattern_line hline rest)
  | case3 => exact .of_error rfl
  | case4 inClass c rest hline _ =>
    have hend : scanPattern inClass ('\\' :: c :: rest) = .error .unterminatedRegex 1 := by
      rw [scanPattern, if_neg (by decide), if_pos rfl]
      exact if_pos hline
    exact .of_error hend
  | case5 inClass c rest hline _ ih =>
    have hstep : ∀ rest, scanPattern inClass ('\\' :: c :: rest) =
        before ['\\', c] 2 (scanPattern inClass rest) := fun rest => by
      rw [scanPattern, if_neg (by decide), if_pos rfl]
      exact if_neg hline
    refine ih.behind (hstep rest) fun v m _ => ⟨?_, fun e => hstep (rest ++ e)⟩
    rw [List.length_cons, List.length_cons]
    omega
  | case6 inClass c rest hline hslash hclose =>
    have hend := fun rest => (scanPattern_plain hline hslash rest).trans (if_pos hclose)
    exact .of_ok (Nat.succ_le_succ (Nat.zero_le _)) fun e => hend (rest ++ e)
  | case7 =>
    next hline hslash hclose _ ih =>
    have hstep := fun rest => (scanPattern_plain hline hslash rest).trans (if_neg hclose)
    refine ih.behind (hstep _) fun v m _ => ⟨?_, fun e => hstep _⟩
    rw [List.length_cons, Nat.add_comm]

end Quoted

/-! ### Tokens -/

/-- Whether a reader that succeeds on a text does so within it, if a blank follows. -/
def SettledByBlank {α : Type} (scan : List Char → Scan α) (s : List Char) : Prop :=
  ∀ value n, scan s = .ok value n →
    n ≤ s.length ∧ ∀ c e, isBlank c = true → scan (s ++ c :: e) = .ok value n

theorem Settled.byBlank {α : Type} {scan : List Char → Scan α} {s : List Char}
    (h : Settled scan s) : SettledByBlank scan s :=
  fun value n hscan => ⟨(h value n hscan).1, fun c e _ => (h value n hscan).2 (c :: e)⟩

theorem SettledByBlank.map {α β : Type} {scan : List Char → Scan α} {f : α → β} {s : List Char}
    (h : SettledByBlank scan s) : SettledByBlank (fun s => (scan s).map f) s := by
  intro value n hscan
  obtain ⟨a, ha, rfl⟩ := Scan.map_ok hscan
  obtain ⟨hle, hmore⟩ := h _ _ ha
  refine ⟨hle, fun c e hc => ?_⟩
  show (scan (s ++ c :: e)).map f = _
  rw [hmore c e hc]
  rfl

theorem Quoted.scanRegex_settled (s : List Char) : SettledByBlank scanRegex s := by
  intro value n h
  unfold scanRegex at h
  cases hscan : scanPattern false s with
  | error cause m => rw [hscan] at h; exact nomatch h
  | ok pattern m =>
    rw [hscan] at h
    cases h
    obtain ⟨hle, hmore⟩ := scanPattern_settled false s _ _ hscan
    refine ⟨?_, fun c e hc => ?_⟩
    · have hflags := (List.takeWhile_prefix (l := s.drop m) isIdentifierPart).length_le
      rw [List.length_drop] at hflags
      omega
    · unfold scanRegex
      rw [hmore (c :: e)]
      simp only [Scan.andThen]
      rw [List.drop_append_of_le_length hle, takeWhile_append_stop (not_part_of_blank hc)]

namespace Lexer

theorem scanWord_settled (first : Char) (s : List Char) : SettledByBlank (scanWord first) s := by
  intro value n h
  unfold scanWord at h
  simp only [] at h
  split at h
  · exact nomatch h
  · next hslash =>
    cases h
    have hle := (List.takeWhile_prefix (l := s) isIdentifierPart).length_le
    refine ⟨hle, fun c e hc => ?_⟩
    unfold scanWord
    simp only [takeWhile_append_stop (not_part_of_blank hc)]
    rw [List.drop_append_of_le_length hle, if_neg]
    cases hafter : s.drop (s.takeWhile isIdentifierPart).length with
    | nil => exact fun h => ne_of_blank hc (by decide) (Option.some.inj h)
    | cons d after =>
      rw [hafter] at hslash
      exact hslash

/-- No mark has a blank in it. -/
theorem marks_tight : ∀ m ∈ marks, m.1.all (!isBlank ·) = true ∧
    ((m.2 == .punct .questionDot) = true → m.1.length = 2) := by decide +kernel

/-- What has no blank is at the front of a text exactly if it is so before a blank. -/
theorem isPrefixOf_append {c : Char} (hc : isBlank c = true) {text : List Char}
    (htext : text.all (!isBlank ·) = true) (s e : List Char) :
    text.isPrefixOf (s ++ c :: e) = text.isPrefixOf s := by
  induction text generalizing s with
  | nil => simp
  | cons d text ih =>
    rw [List.all_cons, Bool.and_eq_true, Bool.not_eq_true'] at htext
    cases s with
    | nil =>
      have hne : (d == c) = false := by
        rw [beq_eq_false_iff_ne]
        exact (ne_of_blank hc htext.1).symm
      rw [List.nil_append, List.isPrefixOf_cons_cons, hne]
      rfl
    | cons b s =>
      rw [List.cons_append, List.isPrefixOf_cons_cons, List.isPrefixOf_cons_cons, ih htext.2]

theorem mark_append {c : Char} (hc : isBlank c = true) (s e : List Char) :
    mark? (s ++ c :: e) = mark? s := by
  have same : ∀ m ∈ marks,
      (m.1.isPrefixOf (s ++ c :: e) &&
        !(m.2 == .punct .questionDot && Numeral.startsWithDigit 10 ((s ++ c :: e).drop 2))) =
      (m.1.isPrefixOf s &&
        !(m.2 == .punct .questionDot && Numeral.startsWithDigit 10 (s.drop 2))) := by
    intro m hm
    obtain ⟨htight, htwo⟩ := marks_tight m hm
    rw [isPrefixOf_append hc htight]
    cases hprefix : m.1.isPrefixOf s with
    | false => rfl
    | true =>
      cases hkind : (m.2 == .punct .questionDot) with
      | false => rfl
      | true =>
        -- the mark is there, so the text goes on to its end at least
        have hle := (List.isPrefixOf_iff_prefix.1 hprefix).length_le
        rw [htwo hkind] at hle
        rw [List.drop_append_of_le_length hle, Numeral.startsWithDigit_append hc]
  exact List.find?_congr same

theorem scanMark_settled (first : Char) (s : List Char) : SettledByBlank (scanMark first) s := by
  intro value n h
  unfold scanMark at h
  split at h
  · next text kind hmark =>
    cases h
    have hprefix := List.find?_some hmark
    rw [Bool.and_eq_true] at hprefix
    have hle := (List.isPrefixOf_iff_prefix.1 hprefix.1).length_le
    refine ⟨?_, fun c e hc => ?_⟩
    · rw [List.length_cons] at hle
      omega
    · unfold scanMark
      rw [← List.cons_append, mark_append hc, hmark]
  · split at h <;> exact nomatch h

/-- A token is the same with a blank behind it. -/
theorem scanToken_settled (regexAllowed : Bool) (braces : List Brace) (first : Char)
    (s : List Char) : SettledByBlank (scanToken regexAllowed braces first) s := by
  have piece : ∀ opening, SettledByBlank
      (fun s => (Quoted.scanPiece s).map (pieceToken opening)) s :=
    fun opening => (Quoted.scanPiece_settled s).byBlank.map
  have string : SettledByBlank (fun s =>
      (Quoted.scanString first s).map fun text => TokenKind.string (String.ofList text)) s :=
    (Quoted.scanString_settled first s).byBlank.map
  have number : SettledByBlank (Numeral.scan first) s := fun value n h =>
    ⟨Numeral.scan_le h, fun c e hc => (Numeral.scan_append hc e first s).trans h⟩
  -- which reader is chosen does not depend on what follows
  intro value n h
  have hsame : ∀ c e, isBlank c = true →
      Numeral.startsWithDigit 10 (s ++ c :: e) = Numeral.startsWithDigit 10 s :=
    fun c e hc => Numeral.startsWithDigit_append hc e 10 s
  unfold scanToken at h ⊢
  split at h
  · next hfirst => simpa only [if_pos hfirst] using piece false value n h
  next hfirst =>
  simp only [if_neg hfirst]
  split at h
  · next hfirst => simpa only [if_pos hfirst] using string value n h
  next hfirst =>
  simp only [if_neg hfirst]
  split at h
  · next hfirst => simpa only [if_pos hfirst] using piece true value n h
  next hfirst =>
  simp only [if_neg hfirst]
  split at h
  · next hdigit =>
    obtain ⟨hle, hmore⟩ := number value n h
    refine ⟨hle, fun c e hc => ?_⟩
    rw [hsame c e hc, if_pos hdigit]
    exact hmore c e hc
  next hdigit =>
  have rest : ∀ {r : List Char → Scan TokenKind}, SettledByBlank r s → r s = .ok value n →
      n ≤ s.length ∧ ∀ c e, isBlank c = true →
        (if first.isDigit = true ∨ (first = '.' ∧ Numeral.startsWithDigit 10 (s ++ c :: e) = true)
          then Numeral.scan first (s ++ c :: e) else r (s ++ c :: e)) = .ok value n := by
    intro r hr h
    obtain ⟨hle, hmore⟩ := hr value n h
    refine ⟨hle, fun c e hc => ?_⟩
    rw [hsame c e hc, if_neg hdigit]
    exact hmore c e hc
  split at h
  · next hfirst => simpa only [if_pos hfirst] using rest (Quoted.scanRegex_settled s) h
  next hfirst =>
  simp only [if_neg hfirst]
  split at h
  · next hfirst => simpa only [if_pos hfirst] using rest (scanWord_settled first s) h
  next hfirst =>
  simp only [if_neg hfirst]
  exact rest (scanMark_settled first s) h

end Lexer

end TemplateVars
