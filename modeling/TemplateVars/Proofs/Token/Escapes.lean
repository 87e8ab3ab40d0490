/-
The escapes in string and template literals.

* `escapesIn` — what stands behind the backslashes of a text;
* `Coded` — whether the code of a character is written in hexadecimal digits there;
* `tokenize_escapes` — in the literals of a text, all codes are written so, except those
  in braces with a plus sign in front of the digits.

Design notes: a text is read from left to right, so a backslash that is escaped itself
begins no escape.  An escape holds no other backslash behind its first character, which is
why it does not matter where its end is taken to be.
-/
import TemplateVars.Proofs.Token.Literal
import TemplateVars.Proofs.Token.Tiling

namespace TemplateVars

open Text

namespace Quoted

/-- What is behind each backslash of a text that begins an escape. -/
def escapesIn : List Char → List (List Char)
  | [] => []
  | ['\\'] => [[]]
  | '\\' :: c :: rest => (c :: rest) :: escapesIn rest
  | _ :: rest => escapesIn rest

/-- Whether the code of a character is written behind a backslash as it has to be: two
hexadecimal digits behind `x`, and behind `u` four of them or some in braces. -/
def Coded (s : List Char) : Prop :=
  (∀ rest, s = 'x' :: rest → ∃ ds : List HexDigit, ds.length = 2 ∧ ds.map Subtype.val <+: rest) ∧
  ∀ rest, s = 'u' :: rest →
    (∃ ds : List HexDigit, ds.length = 4 ∧ ds.map Subtype.val <+: rest) ∨
      ∃ ds : List HexDigit, ds ≠ [] ∧ '{' :: (ds.map Subtype.val ++ ['}']) <+: rest

/-- Whether behind a backslash a plus sign stands in front of the digits in braces. -/
def Signed (s : List Char) : Prop :=
  ∃ ds : List HexDigit, ds ≠ [] ∧ 'u' :: '{' :: '+' :: (ds.map Subtype.val ++ ['}']) <+: s

/-! ### One escape -/

theorem coded_of_ne {c : Char} (hx : c ≠ 'x') (hu : c ≠ 'u') (s : List Char) : Coded (c :: s) :=
  ⟨fun _ h => absurd (List.cons.inj h).1 hx, fun _ h => absurd (List.cons.inj h).1 hu⟩

/-- A plus sign is no digit. -/
theorem Signed.not_coded {s : List Char} (h : Signed s) : ¬Coded s := by
  obtain ⟨ds, -, rest, rfl⟩ := h
  rintro ⟨-, hcoded⟩
  obtain ⟨es, hlength, hprefix⟩ | ⟨es, hsome, hprefix⟩ := hcoded _ rfl
  · cases es with
    | nil => exact nomatch hlength
    | cons e es => exact hexDigit_ne (by decide) e (List.cons_prefix_cons.1 hprefix).1
  · cases es with
    | nil => exact hsome rfl
    | cons e es =>
      have hinside := (List.cons_prefix_cons.1 hprefix).2
      exact hexDigit_ne (by decide) e (List.cons_prefix_cons.1 hinside).1

/-- The digits that are read are at the front of the text. -/
theorem hexDigits_ok {count code value n : Nat} {s : List Char}
    (h : hexDigits count code s = .ok value n) :
    n = count ∧ ∃ (ds : List HexDigit) (rest : List Char),
      ds.length = count ∧ s = ds.map Subtype.val ++ rest := by
  induction count generalizing code s n with
  | zero => cases h; exact ⟨rfl, [], s, rfl, rfl⟩
  | succ count ih =>
    cases s with
    | nil => cases h
    | cons c s =>
      rw [hexDigits] at h
      split at h
      · next d hd =>
        obtain ⟨m, hm, rfl⟩ := Scan.shift_ok h
        obtain ⟨rfl, ds, rest, rfl, rfl⟩ := ih hm
        exact ⟨Nat.add_comm _ _, ⟨c, Option.isSome_iff_exists.2 ⟨d, hd⟩⟩ :: ds, rest, rfl, rfl⟩
      · cases h

/-- Digits as such. -/
theorem exists_hexDigits {ds : List Char} (h : ds.all (isDigitOf 16) = true) :
    ∃ es : List HexDigit, ds = es.map Subtype.val :=
  ⟨ds.attach.map fun d => ⟨d.1, List.all_eq_true.1 h d.1 d.2⟩, by simp [Function.comp_def]⟩

/-- Between the braces are digits, and perhaps a plus sign in front of them. -/
theorem bracedCode_ok {s : List Char} {code : Nat} (h : bracedCode? s = some code) :
    ∃ ds : List HexDigit, ds ≠ [] ∧
      (s = ds.map Subtype.val ∨ s = '+' :: ds.map Subtype.val) := by
  simp only [bracedCode?, Option.ite_none_right_eq_some] at h
  obtain ⟨⟨hsome, hall, -⟩, -⟩ := h
  obtain ⟨ds, hds⟩ := exists_hexDigits hall
  refine ⟨ds, fun hnil => hsome (by rw [hds, hnil]; rfl), ?_⟩
  split at hds
  · next hplus =>
    obtain ⟨rest, rfl⟩ := List.head?_eq_some_iff.1 hplus
    exact .inr (congrArg _ hds)
  · exact .inl hds

theorem scanBraced_ok {s : List Char} {code n : Nat} (h : scanBraced s = .ok code n) :
    ∃ (ds : List HexDigit) (inside rest : List Char), ds ≠ [] ∧
      (inside = ds.map Subtype.val ∨ inside = '+' :: ds.map Subtype.val) ∧
      s = inside ++ '}' :: rest ∧ n = inside.length + 1 := by
  unfold scanBraced at h
  simp only [] at h
  split at h
  · cases h
  · next hne =>
    split at h
    · next code' hcode =>
      cases h
      obtain ⟨ds, hsome, hinside⟩ := bracedCode_ok hcode
      have hsplit := List.takeWhile_append_dropWhile (p := (· != '}')) (l := s)
      have hstop := List.head?_dropWhile_not (· != '}') s
      -- the brace is there, or all of the text would stand in front of it
      cases hdrop : s.dropWhile (· != '}') with
      | nil => rw [hdrop, List.append_nil] at hsplit; exact absurd (congrArg _ hsplit) hne
      | cons c rest =>
        rw [hdrop] at hstop hsplit
        obtain rfl : c = '}' := by simpa using hstop
        exact ⟨ds, _, rest, hsome, hinside, hsplit.symm, rfl⟩
    · exact nomatch h

/-- An escape that is read is coded or has a sign, whatever is behind it. -/
theorem scanEscape_ok {s value : List Char} {n : Nat} (h : scanEscape s = .ok value n) :
    ∃ c tail rest, s = c :: (tail ++ rest) ∧ n = tail.length + 1 ∧ '\\' ∉ tail ∧
      ∀ more, Coded (c :: (tail ++ more)) ∨ Signed (c :: (tail ++ more)) := by
  have digits : ∀ ds : List HexDigit, '\\' ∉ ds.map Subtype.val := by
    intro ds hmem
    obtain ⟨d, -, hd⟩ := List.mem_map.1 hmem
    exact hexDigit_ne (by decide) d hd
  unfold scanEscape at h
  split at h
  case h_1 => exact nomatch h
  case h_8 rest =>
    have hn : n = 1 := by split at h <;> cases h <;> rfl
    exact ⟨'0', [], rest, rfl, hn, List.not_mem_nil,
      fun more => .inl (coded_of_ne (by decide) (by decide) _)⟩
  case h_9 rest =>
    obtain ⟨m, hmap, rfl⟩ := Scan.shift_ok h
    obtain ⟨code, hcode, -⟩ := Scan.map_ok hmap
    obtain ⟨rfl, ds, rest, hlength, rfl⟩ := hexDigits_ok hcode
    refine ⟨'x', ds.map Subtype.val, rest, rfl, ?_, digits ds, fun more => .inl ⟨?_, nofun⟩⟩
    · rw [List.length_map, hlength]
    · rintro _ ⟨⟩
      exact ⟨ds, hlength, List.prefix_append _ _⟩
  case h_10 rest =>
    obtain ⟨m, hmap, rfl⟩ := Scan.shift_ok h
    obtain ⟨code, hcode, -⟩ := Scan.map_ok hmap
    obtain ⟨ds, inside, rest, hsome, hinside, rfl, rfl⟩ := scanBraced_ok hcode
    refine ⟨'u', '{' :: (inside ++ ['}']), rest, by simp, by simp; omega, ?_, fun more => ?_⟩
    · rcases hinside with rfl | rfl <;> simpa using digits ds
    · rcases hinside with rfl | rfl
      · refine .inl ⟨nofun, ?_⟩
        rintro _ ⟨⟩
        exact .inr ⟨ds, hsome, List.prefix_append _ _⟩
      · exact .inr ⟨ds, hsome, List.prefix_append _ more⟩
  case h_11 rest _ =>
    obtain ⟨m, hmap, rfl⟩ := Scan.shift_ok h
    obtain ⟨code, hcode, -⟩ := Scan.map_ok hmap
    obtain ⟨rfl, ds, rest, hlength, rfl⟩ := hexDigits_ok hcode
    refine ⟨'u', ds.map Subtype.val, rest, rfl, ?_, digits ds, fun more => .inl ⟨nofun, ?_⟩⟩
    · rw [List.length_map, hlength]
    · rintro _ ⟨⟩
      exact .inl ⟨ds, hlength, List.prefix_append _ _⟩
  case h_12 rest =>
    cases h
    exact ⟨'\r', ['\n'], rest, rfl, rfl, by decide,
      fun more => .inl (coded_of_ne (by decide) (by decide) _)⟩
  case h_13 c rest _ _ _ _ _ _ _ hx hbrace hu _ =>
    have hn : n = 1 := by split at h <;> cases h <;> rfl
    refine ⟨c, [], rest, rfl, hn, List.not_mem_nil, fun more => .inl (coded_of_ne ?_ ?_ _)⟩
    · exact fun h => hx h
    · exact fun h => hu h
  all_goals
    cases h
    exact ⟨_, [], _, rfl, rfl, List.not_mem_nil,
      fun more => .inl (coded_of_ne (by decide) (by decide) _)⟩

/-! ### All escapes of a literal -/

theorem escapesIn_cons {c : Char} (hc : c ≠ '\\') (s : List Char) :
    escapesIn (c :: s) = escapesIn s := by
  rw [escapesIn]
  · exact fun h => absurd h hc
  · exact fun _ _ h => absurd h hc

theorem escapesIn_append {s : List Char} (hs : '\\' ∉ s) (more : List Char) :
    escapesIn (s ++ more) = escapesIn more := by
  induction s with
  | nil => rfl
  | cons c s ih =>
    rw [List.cons_append, escapesIn_cons fun h => hs (h ▸ List.mem_cons_self ..),
      ih fun h => hs (List.mem_cons_of_mem _ h)]

/-- Whether each escape of a text is coded or has a sign. -/
def Legible (s : List Char) : Prop := ∀ e ∈ escapesIn s, Coded e ∨ Signed e

theorem Legible.cons {c : Char} {s : List Char} (hc : c ≠ '\\') (h : Legible s) :
    Legible (c :: s) := by
  unfold Legible
  rwa [escapesIn_cons hc]

/-- An escape in front of a text. -/
theorem Legible.escape {s value : List Char} {k m : Nat} (hescape : scanEscape s = .ok value k)
    (h : Legible ((s.drop k).take m)) : Legible ('\\' :: s.take (k + m)) := by
  obtain ⟨c, tail, rest, rfl, rfl, htail, hcoded⟩ := scanEscape_ok hescape
  rw [List.drop_succ_cons, List.drop_left] at h
  have htake : (c :: (tail ++ rest)).take (tail.length + 1 + m) =
      c :: (tail ++ rest.take m) := by
    rw [Nat.add_right_comm, List.take_succ_cons, List.take_length_add_append]
  intro e he
  rw [htake, escapesIn, escapesIn_append htail] at he
  rcases List.mem_cons.1 he with rfl | he
  · exact hcoded _
  · exact h e he

theorem scanString_legible {quote : Char} (hquote : quote ≠ '\\') {s value : List Char} {n : Nat}
    (h : scanString quote s = .ok value n) : Legible (s.take n) := by
  fun_induction scanString quote s generalizing value n with
  | case1 => exact nomatch h
  | case2 rest => cases h; exact .cons hquote nofun
  | case3 rest cs k hescape _ ih =>
    obtain ⟨v, m, hrest, -, rfl⟩ := before_ok h
    rw [Nat.add_assoc, Nat.add_comm 1, List.take_succ_cons]
    exact .escape hescape (ih hrest)
  | case4 => exact nomatch h
  | case5 => exact nomatch h
  | case6 c rest _ hslash _ ih =>
    obtain ⟨v, m, hrest, -, rfl⟩ := before_ok h
    rw [Nat.add_comm, List.take_succ_cons]
    exact .cons hslash (ih hrest)

theorem scanPiece_legible {s : List Char} {value : List Char × PieceEnd} {n : Nat}
    (h : scanPiece s = .ok value n) : Legible (s.take n) := by
  fun_induction scanPiece s generalizing value n with
  | case1 => exact nomatch h
  | case2 rest => cases h; exact .cons (by decide) nofun
  | case3 rest cs k hescape _ ih =>
    obtain ⟨m, hmap, rfl⟩ := Scan.shift_ok h
    obtain ⟨v, hrest, -⟩ := Scan.map_ok hmap
    rw [Nat.add_assoc, Nat.add_comm 1, List.take_succ_cons]
    exact .escape hescape (ih hrest)
  | case4 => exact nomatch h
  | case5 c rest _ hslash hopens =>
    cases h
    cases rest with
    | nil => exact nomatch hopens.2
    | cons d rest =>
      obtain rfl : d = '{' := Option.some.inj hopens.2
      exact .cons hslash (.cons (by decide) nofun)
  | case6 c rest _ hslash _ ih =>
    obtain ⟨m, hmap, rfl⟩ := Scan.shift_ok h
    obtain ⟨v, hrest, -⟩ := Scan.map_ok hmap
    rw [Nat.add_comm, List.take_succ_cons]
    exact .cons hslash (ih hrest)

end Quoted

open Quoted

/-! ### The literals of a text -/

/-- Whether a token is a string or a piece of a template, which may hold escapes. -/
def TokenKind.isQuoted : TokenKind → Bool
  | string _ => true
  | template _ => true
  | templateHead _ => true
  | templateMiddle _ => true
  | templateTail _ => true
  | _ => false

namespace Lexer

/-- Whether the escapes in a token read behind a first character are coded or signed, if it
may hold some. -/
def Escaped (first : Char) (s : List Char) : Scan TokenKind → Prop
  | .ok kind n => kind.isQuoted = true → Legible (first :: s.take n)
  | .error _ _ => True

/-- Nothing is to be shown of a kind that holds no escapes. -/
theorem Escaped.of_plain {first : Char} {s : List Char} {r : Scan TokenKind}
    (h : r.All fun kind => kind.isQuoted = false) : Escaped first s r := by
  cases r with
  | ok kind n => exact fun hquoted => nomatch hquoted.symm.trans h
  | error cause n => trivial

theorem Escaped.map {α : Type} {first : Char} (hfirst : first ≠ '\\') {s : List Char}
    {r : Scan α} {f : α → TokenKind} (h : ∀ value n, r = .ok value n → Legible (s.take n)) :
    Escaped first s (r.map f) := by
  cases r with
  | ok value n => exact fun _ => (h value n rfl).cons hfirst
  | error cause n => trivial

/-- No mark and no word holds an escape. -/
theorem marks_plain : ∀ m ∈ marks, m.2.isQuoted = false := by decide +kernel

theorem ofWord_plain (word : String) : (TokenKind.ofWord word).isQuoted = false := by
  unfold TokenKind.ofWord
  split
  · rfl
  · split <;> rfl

theorem scanToken_escaped (regexAllowed : Bool) (braces : List Brace) (first : Char)
    (s : List Char) : Escaped first s (scanToken regexAllowed braces first s) := by
  unfold scanToken
  split
  · next h =>
    exact .map (by rw [h.1]; decide) fun _ _ => scanPiece_legible
  split
  · next h =>
    have hquote : first ≠ '\\' := by rcases h with rfl | rfl <;> decide
    exact .map hquote fun _ _ => scanString_legible hquote
  split
  · next h =>
    exact .map (by rw [h]; decide) fun _ _ => scanPiece_legible
  split
  · exact .of_plain (Numeral.scan_all (fun _ => rfl) (fun _ => rfl) first s)
  split
  · exact .of_plain (.andThen fun _ _ => rfl)
  split
  · next h => exact .of_plain (scanWord_all first s h fun _ _ => ofWord_plain _)
  · exact .of_plain (scanMark_all first s fun _ _ hmem _ => marks_plain _ hmem)

variable {text : List Char} {l : Lexer}

/-- A token that is read covers its first character and those that its reader takes. -/
theorem Reads.covers {access : Bool} {ts : List Token} (h : Reads l access ts)
    (hl : l.Within text) {t : Token} (ht : t ∈ ts) (hlive : t.kind.isTerminal = false) :
    ∃ regexAllowed braces first s n,
      scanToken regexAllowed braces first s = .ok t.kind n ∧
        slice text t.start.offset t.stop = first :: s.take n := by
  induction h with
  | comment =>
    obtain rfl := List.mem_singleton.1 ht
    exact nomatch hlive
  | ended =>
    obtain rfl := List.mem_singleton.1 ht
    exact nomatch hlive
  | failed =>
    obtain rfl := List.mem_singleton.1 ht
    exact nomatch hlive
  | @token l access newline used n first s kind ts _ hrest hscan _ ih =>
    have hnext := (hl.skip used).skip (n + 1)
    rcases List.mem_cons.1 ht with rfl | ht
    · refine ⟨_, _, first, s, n, hscan, ?_⟩
      rw [(hl.skip used).slice_skip, hrest, List.take_succ_cons]
    · exact ih ⟨hnext.rest, hnext.offset_le, hnext.line, hnext.column⟩ ht

end Lexer

namespace Quoted

/-! ### A plus sign in front of the digits -/

theorem scanBraced_signed {ds : List HexDigit} (hsome : ds ≠ [])
    (hsmall : codeOf ds < Nat.pow 2 32) (behind : List Char) :
    scanBraced ('+' :: (ds.map Subtype.val ++ '}' :: behind)) =
      .ok (codeOf ds) (ds.length + 2) := by
  have hinside : ('+' :: (ds.map Subtype.val ++ '}' :: behind)).takeWhile (· != '}') =
      '+' :: ds.map Subtype.val := by
    rw [List.takeWhile_cons_of_pos (by decide), takeWhile_digits]
  have hcode : bracedCode? ('+' :: ds.map Subtype.val) = some (codeOf ds) := by
    have hall : (ds.map Subtype.val).all (isDigitOf 16) = true := by
      refine List.all_eq_true.2 fun c hc => ?_
      obtain ⟨d, -, rfl⟩ := List.mem_map.1 hc
      exact d.2
    exact if_pos ⟨fun h => hsome (List.map_eq_nil_iff.1 h), hall, hsmall⟩
  unfold scanBraced
  simp only [hinside, hcode, List.length_cons, List.length_map]
  rw [if_neg]
  simp

/-- The text of a literal that is one escape with a plus sign in front of its digits. -/
def signedLiteral (form : Form) (ds : List HexDigit) : String :=
  String.ofList (form.mark :: '\\' :: 'u' :: '{' :: '+' :: (ds.map Subtype.val ++ ['}', form.mark]))

theorem scanEscape_signed {ds : List HexDigit} (hsome : ds ≠ [])
    (hsmall : codeOf ds < Nat.pow 2 32) (behind : List Char) :
    scanEscape ('u' :: '{' :: '+' :: (ds.map Subtype.val ++ '}' :: behind)) =
      .ok [scalar (codeOf ds)] (ds.length + 4) := by
  show ((scanBraced _).map _).shift 2 = _
  rw [scanBraced_signed hsome hsmall, Nat.add_comm _ 4]
  simp only [Scan.map, Scan.andThen, Scan.shift]
  congr 1
  omega

theorem drop_signed (ds : List HexDigit) (behind : List Char) :
    ('u' :: '{' :: '+' :: (ds.map Subtype.val ++ '}' :: behind)).drop (ds.length + 4) = behind := by
  rw [List.drop_succ_cons, List.drop_succ_cons, List.drop_succ_cons, List.drop_append,
    List.drop_eq_nil_of_le (by simp), List.length_map, Nat.add_sub_cancel_left]
  rfl

/-- A string that is one escape. -/
theorem scanString_escape {quote : Char} (hquote : quote ≠ '\\') {s value : List Char} {k : Nat}
    (hescape : scanEscape s = .ok value k) (hdrop : s.drop k = [quote]) :
    scanString quote ('\\' :: s) = .ok value (k + 2) := by
  have hclose : scanString quote [quote] = .ok [] 1 := by rw [scanString, if_pos rfl]
  rw [scanString, if_neg hquote.symm, if_pos rfl, hescape]
  simp only [hdrop, hclose, before, Scan.map, Scan.andThen, Scan.shift, List.append_nil]
  congr 1
  omega

/-- A template that is one escape. -/
theorem scanPiece_escape {s value : List Char} {k : Nat} (hescape : scanEscape s = .ok value k)
    (hdrop : s.drop k = [backtick]) :
    scanPiece ('\\' :: s) = .ok (value, .closed) (k + 2) := by
  have hclose : scanPiece [backtick] = .ok ([], .closed) 1 := by rw [scanPiece, if_pos rfl]
  rw [scanPiece, if_neg (by decide), if_pos rfl, hescape]
  simp only [hdrop, hclose, Scan.map, Scan.andThen, Scan.shift, List.append_nil]
  congr 1
  omega

/-- An escape with a plus sign is read as if it had none. -/
theorem tokenize_signed (form : Form) {ds : List HexDigit} (hsome : ds ≠ [])
    (hsmall : codeOf ds < Nat.pow 2 32) : (tokenize (signedLiteral form ds)).map Token.kind =
      [form.token (String.singleton (scalar (codeOf ds))), .eof] := by
  have hescape := scanEscape_signed hsome hsmall [form.mark]
  have hscan : Lexer.scanToken true [] form.mark ('\\' :: 'u' :: '{' :: '+' ::
      (ds.map Subtype.val ++ ['}', form.mark])) =
        .ok (form.token (String.singleton (scalar (codeOf ds))))
          ('\\' :: 'u' :: '{' :: '+' :: (ds.map Subtype.val ++ ['}', form.mark])).length := by
    have hbrace : form.mark ≠ '}' := by cases form <;> decide
    have hlength : ('\\' :: 'u' :: '{' :: '+' :: (ds.map Subtype.val ++ ['}', form.mark])).length =
        ds.length + 4 + 2 := by
      simp
    rw [Lexer.scanToken, if_neg fun h => hbrace h.1, hlength]
    by_cases hform : form = .template
    · subst hform
      rw [if_neg (by decide)]
      refine (if_pos (by decide)).trans ?_
      rw [scanPiece_escape hescape (drop_signed ds _)]
      rfl
    · have hquote : form.mark = '\x22' ∨ form.mark = '\x27' := by
        cases form <;> simp [Form.mark] at hform ⊢
      rw [if_pos hquote, scanString_escape form.mark_ne hescape (drop_signed ds _)]
      cases form <;> first | rfl | exact absurd rfl hform
  obtain ⟨t, u, htokens, ht, hu⟩ := Lexer.tokensFrom_whole
    (l := .ofText (signedLiteral form ds).toList) String.toList_ofList
    (Lexer.gap_of_mark form _) hscan false
  show ((Lexer.ofText (signedLiteral form ds).toList).tokensFrom false).1.map Token.kind = _
  rw [htokens, List.map_cons, List.map_cons, ht, hu]
  rfl

end Quoted

open Quoted

/-- In the literals of a text all codes are written in hexadecimal digits as they have to be,
except those in braces with a plus sign in front of the digits, and these are read. -/
theorem tokenize_escapes (source : String) (form : Form) (ds : List HexDigit) :
    (∀ t ∈ tokenize source, t.kind.isQuoted = true →
      ∀ s ∈ escapesIn (slice source.toList t.start.offset t.stop), Coded s ↔ ¬Signed s) ∧
    (ds ≠ [] → codeOf ds < Nat.pow 2 32 →
      (tokenize (signedLiteral form ds)).map Token.kind =
        [form.token (String.singleton (scalar (codeOf ds))), .eof]) := by
  refine ⟨fun t ht hquoted s hs => ?_, tokenize_signed form⟩
  have hlive : t.kind.isTerminal = false := by
    cases hkind : t.kind <;> rw [hkind] at hquoted <;> first | rfl | exact nomatch hquoted
  obtain ⟨regexAllowed, braces, first, after, n, hscan, hslice⟩ :=
    (Lexer.reads_tokensFrom _ _).covers (Lexer.ofText_within source.toList) ht hlive
  have hescaped := Lexer.scanToken_escaped regexAllowed braces first after
  rw [hscan] at hescaped
  rw [hslice] at hs
  refine ⟨fun hcoded hsigned => hsigned.not_coded hcoded, fun hno => ?_⟩
  exact (hescaped hquoted s hs).resolve_right hno

/-- An escape with a plus sign, read as the letter A. -/
theorem tokenize_escapes_signed :
    let t : Token := ⟨.string "A", {}, 9, false⟩
    let s := "u\x7b+41\x7d\"".toList
    let ds : List HexDigit := [⟨'4', by decide⟩, ⟨'1', by decide⟩]
    let source := "\"\\u\x7b+41\x7d\""
    (t ∈ tokenize source ∧ t.kind.isQuoted = true ∧
      s ∈ escapesIn (slice source.toList t.start.offset t.stop) ∧ ¬Coded s) ∧
    ds ≠ [] ∧ codeOf ds < Nat.pow 2 32 ∧ signedLiteral .double ds = source ∧
      (tokenize source).map Token.kind = [.string "A", .eof] := by
  intro t s ds source
  have ht : t ∈ tokenize source := by decide +kernel
  have hs : s ∈ escapesIn (slice source.toList t.start.offset t.stop) := by decide +kernel
  have hsigned : Signed s := ⟨ds, by decide, ['"'], rfl⟩
  have hsome : ds ≠ [] := by decide
  have hsmall : codeOf ds < Nat.pow 2 32 := by decide
  obtain ⟨hcodes, hread⟩ := tokenize_escapes source .double ds
  exact ⟨⟨ht, rfl, hs, fun hcoded => (hcodes t ht rfl s hs).1 hcoded hsigned⟩,
    hsome, hsmall, rfl, hread hsome hsmall⟩

end TemplateVars
