/-
The texts of decimal literals.

The main result is `decimals_written`: a decimal literal without its separators is a decimal
number as the reader of numbers expects it, so no token fails for want of a value.

* `IsDecimal` — digits, perhaps a point and digits, perhaps an exponent;
* `Decimal.read?_isSome` — the reader accepts these texts and no others;
* `Numeral.reading_isDecimal` — what the lexer reads of a literal is one of them;
* `Lexer.scanToken_valued` — so the readers of the lexer never fail with a bad number.

Design notes: a literal may begin with a point, for which the lexer puts a zero in front, and may
end with one.  That a digit follows an `e` is looked up before the exponent is read; where it does
not, the literal fails for another reason.
-/
import TemplateVars.Proofs.Token.Front
import TemplateVars.Proofs.Token.Passes

namespace TemplateVars

open Text

/-! ### Decimal numbers -/

/-- One or more digits. -/
def IsDigits (s : List Char) : Prop := s ≠ [] ∧ s.all Char.isDigit = true

/-- Nothing, or a point and any digits. -/
def IsFraction (s : List Char) : Prop := s = [] ∨ ∃ ds, s = '.' :: ds ∧ ds.all Char.isDigit = true

/-- Perhaps a sign, and digits. -/
def IsSigned (s : List Char) : Prop :=
  ∃ sign ds, s = sign ++ ds ∧ (sign = [] ∨ sign = ['+'] ∨ sign = ['-']) ∧ IsDigits ds

/-- Nothing, or `e` or `E` and digits, perhaps with a sign. -/
def IsExponent (s : List Char) : Prop :=
  s = [] ∨ ∃ mark rest, s = mark :: rest ∧ (mark = 'e' ∨ mark = 'E') ∧ IsSigned rest

/-- Digits with a fraction and an exponent, both of which may be lacking. -/
def IsDecimal (s : List Char) : Prop :=
  ∃ whole fraction exponent, s = whole ++ (fraction ++ exponent) ∧ IsDigits whole ∧
    IsFraction fraction ∧ IsExponent exponent

/-- Whether no digit comes next. -/
def DigitsEnd (s : List Char) : Prop := ∀ c ∈ s.head?, c.isDigit = false

theorem takeWhile_digits {ds s : List Char} (hds : ds.all Char.isDigit = true)
    (hs : DigitsEnd s) : (ds ++ s).takeWhile Char.isDigit = ds ∧
      (ds ++ s).dropWhile Char.isDigit = s := by
  have hall : ∀ c ∈ ds, c.isDigit = true := List.all_eq_true.1 hds
  rw [List.takeWhile_append_of_pos hall, List.dropWhile_append_of_pos hall]
  cases s with
  | nil => exact ⟨List.append_nil _, rfl⟩
  | cons c s =>
    have hc : ¬c.isDigit = true := Bool.eq_false_iff.1 (hs c rfl)
    rw [List.takeWhile_cons_of_neg hc, List.dropWhile_cons_of_neg hc]
    exact ⟨List.append_nil _, rfl⟩

theorem IsExponent.digitsEnd {s : List Char} (h : IsExponent s) : DigitsEnd s := by
  obtain rfl | ⟨mark, rest, rfl, hmark, -⟩ := h
  · exact nofun
  · rintro c ⟨⟩
    rcases hmark with rfl | rfl <;> decide

theorem isSigned_cons {c : Char} (hc : c = '+' ∨ c = '-') {s : List Char} :
    IsSigned (c :: s) ↔ IsDigits s := by
  constructor
  · rintro ⟨_, ds, h, rfl | rfl | rfl, hds⟩ <;> cases h
    · -- a sign is no digit
      rcases hc with rfl | rfl <;> exact nomatch hds.2
    · exact hds
    · exact hds
  · exact fun hds => ⟨[c], s, rfl, .inr (hc.imp (fun h => by rw [h]) fun h => by rw [h]), hds⟩

theorem isSigned_unsigned {s : List Char} (hplus : ∀ ds, s ≠ '+' :: ds)
    (hminus : ∀ ds, s ≠ '-' :: ds) : IsSigned s ↔ IsDigits s := by
  constructor
  · rintro ⟨_, ds, h, rfl | rfl | rfl, hds⟩
    · rwa [h]
    · exact absurd h (hplus ds)
    · exact absurd h (hminus ds)
  · exact fun hds => ⟨[], s, rfl, .inl rfl, hds⟩

namespace Decimal

theorem readDigits?_isSome {s : List Char} : (readDigits? s).isSome = true ↔ IsDigits s := by
  rw [readDigits?, IsDigits]
  split
  · next h => exact iff_of_true rfl h
  · next h => exact iff_of_false nofun h

/-- Behind the mark of an exponent stand digits, perhaps with a sign. -/
theorem readExponent?_mark {mark : Char} (hmark : mark = 'e' ∨ mark = 'E') {s : List Char} :
    (readExponent? (mark :: s)).isSome = true ↔ IsSigned s := by
  have hread : ∀ {f : Int → Int} {ds : List Char},
      (((readDigits? ds).bind fun n => some (n : Int)).map f).isSome = true ↔ IsDigits ds := by
    intro f ds
    rw [Option.isSome_map, ← readDigits?_isSome]
    cases readDigits? ds <;> exact Iff.rfl
  unfold readExponent?
  simp only [if_pos hmark]
  split
  · exact hread.trans (isSigned_cons (.inl rfl)).symm
  · exact hread.trans (isSigned_cons (.inr rfl)).symm
  · next hplus hminus => exact hread.trans (isSigned_unsigned hplus hminus).symm

theorem readExponent?_isSome {s : List Char} : (readExponent? s).isSome = true ↔ IsExponent s := by
  cases s with
  | nil => exact iff_of_true rfl (.inl rfl)
  | cons mark s =>
    by_cases hmark : mark = 'e' ∨ mark = 'E'
    · rw [readExponent?_mark hmark]
      constructor
      · exact fun hsigned => .inr ⟨mark, s, rfl, hmark, hsigned⟩
      · rintro (h | ⟨_, _, h, -, hsigned⟩)
        · exact nomatch h
        · rwa [(List.cons.inj h).2]
    · unfold readExponent?
      simp only [if_neg hmark]
      refine iff_of_false nofun ?_
      rintro (h | ⟨_, _, h, hmark', -⟩)
      · exact nomatch h
      · obtain ⟨rfl, -⟩ := List.cons.inj h
        exact hmark hmark'

/-- The reader of numbers accepts the decimal numbers and nothing else. -/
theorem read?_isSome {s : List Char} : (read? s).isSome = true ↔ IsDecimal s := by
  constructor
  · intro h
    have hs := (List.takeWhile_append_dropWhile (p := Char.isDigit) (l := s)).symm
    have hall : (s.takeWhile Char.isDigit).all Char.isDigit = true := List.all_takeWhile
    rw [read?] at h
    simp only [] at h
    split at h
    · exact nomatch h
    · next hne =>
      split at h <;> rw [Option.isSome_map, readExponent?_isSome] at h
      · next rest hpoint =>
        refine ⟨_, '.' :: rest.takeWhile Char.isDigit, _, ?_, ⟨hne, hall⟩,
          .inr ⟨_, rfl, List.all_takeWhile⟩, h⟩
        rw [List.cons_append, List.takeWhile_append_dropWhile, ← hpoint]
        exact hs
      · exact ⟨_, [], _, hs, ⟨hne, hall⟩, .inl rfl, h⟩
  · rintro ⟨whole, fraction, exponent, rfl, hwhole, hfraction, hexponent⟩
    have hread := readExponent?_isSome.2 hexponent
    obtain rfl | ⟨ds, rfl, hds⟩ := hfraction
    · obtain ⟨htake, hdrop⟩ := takeWhile_digits hwhole.2 hexponent.digitsEnd
      rw [List.nil_append, read?, htake, hdrop]
      simp only [if_neg hwhole.1]
      split
      · -- no exponent begins with a point
        obtain h | ⟨mark, _, h, hmark, -⟩ := hexponent
        · exact nomatch h
        · obtain ⟨rfl, -⟩ := List.cons.inj h
          exact absurd hmark (by decide)
      · rwa [Option.isSome_map]
    · have hpoint : DigitsEnd ('.' :: ds ++ exponent) := by
        rintro c ⟨⟩
        decide
      obtain ⟨htake, hdrop⟩ := takeWhile_digits hwhole.2 hpoint
      rw [read?, htake, hdrop, List.cons_append]
      simp only [if_neg hwhole.1, (takeWhile_digits hds hexponent.digitsEnd).2]
      rwa [Option.isSome_map]

end Decimal

theorem Number.ofDecimalText?_isSome {s : List Char} :
    (Number.ofDecimalText? s).isSome = true ↔ IsDecimal s := by
  rw [Number.ofDecimalText?, Option.isSome_map, Decimal.read?_isSome]

/-! ### Decimal literals -/

namespace Numeral

/-- No letter is a decimal digit. -/
theorem isDigit_of_ten {c : Char} (h : isDigitOf 10 c = true) : c.isDigit = true := by
  obtain ⟨value, hfilter⟩ := Option.isSome_iff_exists.1 h
  obtain ⟨hvalue, hlt⟩ := Option.filter_eq_some_iff.1 hfilter
  rw [decide_eq_true_eq] at hlt
  split at hvalue
  · next hdigit =>
    rw [Char.isDigit, Bool.and_eq_true, decide_eq_true_eq, decide_eq_true_eq]
    exact hdigit
  split at hvalue
  · cases hvalue
    omega
  split at hvalue
  · cases hvalue
    omega
  · exact nomatch hvalue

theorem digitRun_all (s : List Char) : (digitRun 10 s).1.all Char.isDigit = true := by
  fun_induction digitRun 10 s with
  | case1 => rfl
  | case4 => rfl
  | case2 c rest hc ds n heq ih =>
    rw [heq] at ih
    rw [List.all_cons, isDigit_of_ten hc, ih]
    rfl
  | case3 c rest _ _ ds n heq ih =>
    rwa [heq] at ih

theorem digitRun_isDigits {s : List Char} (h : startsWithDigit 10 s = true) :
    IsDigits (digitRun 10 s).1 := by
  refine ⟨?_, digitRun_all s⟩
  cases s with
  | nil => cases h
  | cons c s =>
    rw [digitRun, if_pos (show isDigitOf 10 c = true from h)]
    exact List.cons_ne_nil _ _

theorem mantissa_written {first : Char} (hfirst : first.isDigit = true ∨ first = '.')
    (s : List Char) : ∃ whole fraction, (mantissa first s).text = whole ++ fraction ∧
      IsDigits whole ∧ IsFraction fraction := by
  have hall := digitRun_all s
  unfold mantissa
  simp only []
  by_cases hpoint : first = '.'
  · -- a zero stands in front of the point
    rw [if_pos hpoint]
    exact ⟨['0'], '.' :: (digitRun 10 s).1, rfl, ⟨nofun, rfl⟩, .inr ⟨_, rfl, hall⟩⟩
  · have hwhole : IsDigits (first :: (digitRun 10 s).1) := by
      refine ⟨nofun, ?_⟩
      rw [List.all_cons, hfirst.resolve_right hpoint, hall]
      rfl
    simp only [if_neg hpoint]
    split
    · next after _ =>
      exact ⟨_, '.' :: (digitRun 10 after).1, rfl, hwhole, .inr ⟨_, rfl, digitRun_all after⟩⟩
    · exact ⟨_, [], (List.append_nil _).symm, hwhole, .inl rfl⟩

theorem exponent_written {s text : List Char} {n : Nat} (h : exponent? s = some (text, n)) :
    IsSigned text := by
  cases s with
  | nil => cases h
  | cons c s =>
    rw [exponent?] at h
    split at h
    · next hsign =>
      split at h
      · next hdigit =>
        cases h
        exact (isSigned_cons hsign).2 (digitRun_isDigits hdigit)
      · cases h
    split at h
    · next hdigit =>
      have hstarts : startsWithDigit 10 (c :: s) = true := isDigitOf_ten hdigit
      have hds := digitRun_isDigits hstarts
      rw [Option.some.inj h] at hds
      exact ⟨[], text, rfl, .inl rfl, hds⟩
    · cases h

/-- What is read of a literal is a decimal number. -/
theorem reading_isDecimal {first : Char} (hfirst : first.isDigit = true ∨ first = '.')
    {s : List Char} {p : Reading} {n : Nat}
    (h : withExponent (mantissa first s) (s.drop (mantissa first s).used) = .ok p n) :
    IsDecimal p.text := by
  obtain ⟨whole, fraction, htext, hwhole, hfraction⟩ := mantissa_written hfirst s
  have hplain : IsDecimal (mantissa first s).text :=
    ⟨whole, fraction, [], by rw [htext, List.append_nil], hwhole, hfraction, .inl rfl⟩
  unfold withExponent at h
  split at h
  · next c rest _ =>
    split at h
    · next hmark =>
      split at h
      · next text m hexponent =>
        cases h
        refine ⟨whole, fraction, c :: text, ?_, hwhole, hfraction, .inr ?_⟩
        · rw [htext, List.append_assoc]
        · exact ⟨c, text, rfl, hmark, exponent_written hexponent⟩
      · exact nomatch h
    · cases h
      exact hplain
  · cases h
    exact hplain

end Numeral

/-! ### Failures -/

namespace Scan

variable {α β : Type}

/-- Whether reading does not fail for a number that has no value. -/
def Valued : Scan α → Prop
  | error (.badNumber _) _ => False
  | _ => True

theorem Valued.ok (a : α) (n : Nat) : (Scan.ok a n).Valued := trivial

theorem Valued.shift {s : Scan α} (h : s.Valued) (n : Nat) : (s.shift n).Valued := by
  cases s with
  | ok a m => trivial
  | error cause m => cases cause <;> exact h

theorem Valued.andThen {s : Scan α} {next : α → Nat → Scan β} (h : s.Valued)
    (hnext : ∀ a n, s = .ok a n → (next a n).Valued) : (s.andThen next).Valued := by
  cases s with
  | ok a m => exact hnext a m rfl
  | error cause m => cases cause <;> exact h

theorem Valued.map {s : Scan α} (h : s.Valued) (f : α → β) : (s.map f).Valued :=
  h.andThen fun _ _ _ => trivial

/-- The outcome of a failed reader as that of another one. -/
theorem Valued.failed {cause : LexError} {n m : Nat} (h : (error cause n : Scan α).Valued) :
    (error cause m : Scan β).Valued := by
  cases cause <;> exact h

end Scan

namespace Numeral

theorem closed_valued {literal : Scan TokenKind} (h : literal.Valued) (n : Nat)
    (after : List Char) : (closed n after literal).Valued := by
  unfold closed
  split
  · split
    · trivial
    · exact h
  · exact h

theorem scanRadix_valued (radix : Nat) (s : List Char) : (scanRadix radix s).Valued := by
  unfold scanRadix
  simp only []
  split
  · trivial
  · split
    · exact closed_valued (.ok _ _) _ _
    · exact closed_valued (.ok _ _) _ _

theorem withExponent_valued (m : Reading) (after : List Char) : (withExponent m after).Valued := by
  unfold withExponent
  split
  · split
    · split <;> trivial
    · trivial
  · trivial

/-- A decimal literal has a value. -/
theorem scanDecimal_valued {first : Char} (hfirst : first.isDigit = true ∨ first = '.')
    (s : List Char) : (scanDecimal first s).Valued := by
  refine (withExponent_valued _ _).andThen fun p n hread => ?_
  have hvalue := Number.ofDecimalText?_isSome.2 (reading_isDecimal hfirst hread)
  obtain ⟨value, hvalue⟩ := Option.isSome_iff_exists.1 hvalue
  simp only [hvalue]
  split
  · exact closed_valued (.ok _ _) _ _
  · exact closed_valued (.ok _ _) _ _

theorem scan_valued {first : Char} (hfirst : first.isDigit = true ∨ first = '.')
    (s : List Char) : (scan first s).Valued := by
  unfold scan
  split
  · split
    · exact (scanRadix_valued _ _).shift 1
    · exact scanDecimal_valued hfirst _
  · exact scanDecimal_valued hfirst _

end Numeral

namespace Quoted

theorem hexDigits_valued (count code : Nat) (s : List Char) : (hexDigits count code s).Valued := by
  fun_induction hexDigits count code s with
  | case3 _ _ _ _ _ _ ih => exact ih.shift 1
  | _ => trivial

theorem scanBraced_valued (s : List Char) : (scanBraced s).Valued := by
  unfold scanBraced
  simp only []
  split
  · trivial
  · split <;> trivial

theorem scanEscape_valued (s : List Char) : (scanEscape s).Valued := by
  unfold scanEscape
  split
  case h_9 => exact ((hexDigits_valued _ _ _).map _).shift 1
  case h_10 => exact ((scanBraced_valued _).map _).shift 2
  case h_11 => exact ((hexDigits_valued _ _ _).map _).shift 1
  case h_8 => split <;> trivial
  case h_13 => split <;> trivial
  all_goals trivial

theorem before_valued {s : Scan (List Char)} (h : s.Valued) (cs : List Char) (n : Nat) :
    (before cs n s).Valued :=
  (h.map _).shift n

theorem scanString_valued (quote : Char) (s : List Char) : (scanString quote s).Valued := by
  fun_induction scanString quote s with
  | case3 rest cs n _ _ ih => exact before_valued ih _ _
  | case4 rest cause n hescape _ => exact (hescape ▸ scanEscape_valued rest).failed
  | case6 c rest _ _ _ ih => exact before_valued ih _ _
  | _ => trivial

theorem scanPiece_valued (s : List Char) : (scanPiece s).Valued := by
  fun_induction scanPiece s with
  | case3 rest cs n _ _ ih => exact (ih.map _).shift _
  | case4 rest cause n hescape _ => exact (hescape ▸ scanEscape_valued rest).failed
  | case6 c rest _ _ _ ih => exact (ih.map _).shift _
  | _ => trivial

theorem scanPattern_valued (inClass : Bool) (s : List Char) : (scanPattern inClass s).Valued := by
  fun_induction scanPattern inClass s with
  | case5 _ _ _ _ _ ih => exact before_valued ih _ _
  | case7 _ _ _ _ _ _ _ ih => exact before_valued ih _ _
  | _ => trivial

end Quoted

namespace Lexer

/-- No reader of the lexer fails for a number that has no value. -/
theorem scanToken_valued (regexAllowed : Bool) (braces : List Brace) (first : Char)
    (s : List Char) : (scanToken regexAllowed braces first s).Valued := by
  unfold scanToken
  split
  · exact (Quoted.scanPiece_valued s).map _
  split
  · exact (Quoted.scanString_valued first s).map _
  split
  · exact (Quoted.scanPiece_valued s).map _
  split
  · next hfirst => exact Numeral.scan_valued (hfirst.imp id And.left) s
  split
  · exact (Quoted.scanPattern_valued false s).andThen fun _ _ _ => trivial
  split
  · unfold scanWord
    simp only []
    split <;> trivial
  · unfold scanMark
    split
    · trivial
    · split <;> trivial

/-- No token of a pass is a number that has no value. -/
theorem Reads.valued {l : Lexer} {access : Bool} {ts : List Token} (h : Reads l access ts) :
    ∀ t ∈ ts, ∀ text, t.kind ≠ .invalid (.badNumber text) := by
  induction h with
  | comment => exact List.forall_mem_singleton.2 nofun
  | ended => exact List.forall_mem_singleton.2 nofun
  | @failed l access newline used n first s cause hgap hrest hscan =>
    have hvalued := scanToken_valued l.regexAllowed l.braces first s
    rw [hscan] at hvalued
    refine List.forall_mem_singleton.2 fun text hkind => ?_
    rw [show cause = _ from TokenKind.invalid.inj hkind] at hvalued
    exact hvalued
  | @token l access newline used n first s kind ts hgap hrest hscan _ ih =>
    refine List.forall_mem_cons.2 ⟨fun text hkind => ?_, ih⟩
    have hlive := scanToken_live l.regexAllowed l.braces first s
    rw [hscan] at hlive
    rw [show kind = _ from hkind] at hlive
    exact nomatch hlive

end Lexer

theorem head?_of_front {s t : List Char} {c : Char} (h : s <+: t) (hs : s.head? = some c) :
    t.head? = some c := by
  obtain ⟨rest, rfl⟩ := h
  rw [List.head?_append, hs, Option.some_or]

/-- Only a number that has no value is reported as an invalid one. -/
theorem LexError.badNumber_of_message {cause : LexError}
    (h : "Invalid number literal".toList <+: cause.message.toList) :
    ∃ text, cause = .badNumber text := by
  cases cause with
  | badNumber text => exact ⟨text, rfl⟩
  | unexpectedCharacter c =>
    have hmessage : "Unexpected character '".toList <+: (unexpectedCharacter c).message.toList := by
      show _ <+: ("Unexpected character '" ++ String.singleton c ++ "'").toList
      rw [String.toList_append, String.toList_append, List.append_assoc]
      exact List.prefix_append _ _
    have hfirst := head?_of_front h (show _ = some 'I' by decide +kernel)
    rw [head?_of_front hmessage (show _ = some 'U' by decide +kernel)] at hfirst
    exact absurd (Option.some.inj hfirst) (by decide)
  | _ => exact absurd h (by decide +kernel)

/-- The texts of decimal literals are decimal numbers, which are just the texts that have a value;
so in no pass over a text a token fails with an invalid number. -/
theorem decimals_written :
    (∀ text, (Number.ofDecimalText? text).isSome = true ↔ IsDecimal text) ∧
    (∀ first s p n, first.isDigit = true ∨ first = '.' →
      Numeral.withExponent (Numeral.mantissa first s) (s.drop (Numeral.mantissa first s).used) =
        .ok p n → IsDecimal p.text) ∧
    ∀ source k t cause, t ∈ Lexer.tokensOf source k → t.kind = .invalid cause →
      ¬"Invalid number literal".toList <+: cause.message.toList := by
  refine ⟨fun text => Number.ofDecimalText?_isSome,
    fun first s p n hfirst hread => Numeral.reading_isDecimal hfirst hread,
    fun source k t cause ht hkind hmessage => ?_⟩
  obtain ⟨text, rfl⟩ := LexError.badNumber_of_message hmessage
  exact (Lexer.reads_tokensFrom _ _).valued t ht text hkind

/-- Separators on both sides of the exponent of a literal that begins with a point; and a literal
that fails for another reason. -/
theorem decimals_written_point :
    (∃ p n, Numeral.withExponent (Numeral.mantissa '.' ['5', '_', '0', 'e', '-', '1', '_', '2'])
        (['5', '_', '0', 'e', '-', '1', '_', '2'].drop
          (Numeral.mantissa '.' ['5', '_', '0', 'e', '-', '1', '_', '2']).used) = .ok p n ∧
      p.text = ['0', '.', '5', '0', 'e', '-', '1', '2'] ∧ IsDecimal p.text ∧
      (Number.ofDecimalText? p.text).isSome = true) ∧
    ∃ t cause, t ∈ Lexer.tokensOf "0x_" 0 ∧ t.kind = .invalid cause ∧
      ¬"Invalid number literal".toList <+: cause.message.toList := by
  obtain ⟨hvalue, hwritten, hfails⟩ := decimals_written
  have hread := hwritten '.' ['5', '_', '0', 'e', '-', '1', '_', '2'] _ _ (.inr rfl) rfl
  refine ⟨⟨_, _, rfl, rfl, hread, (hvalue _).2 hread⟩, ?_⟩
  have hfirst : (Lexer.tokensOf "0x_" 0).head?.map Token.kind =
      some (.invalid .missingRadixDigits) := by decide +kernel
  obtain ⟨t, ht, hkind⟩ := Option.map_eq_some_iff.1 hfirst
  have hmem := List.mem_of_head? ht
  exact ⟨t, _, hmem, hkind, hfails _ _ t _ hmem hkind⟩

end TemplateVars
