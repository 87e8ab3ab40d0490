/-
Texts that spell JSON documents.

* `Spells` — how a document may be written, with space in front of each part;
* `Spells.readBack` — what is spelled is read, whatever follows it;
* `spells_items`, `spells_members` — items and members with space around them;
* `Readable.spells` — a document in one line is a spelling of it;
* `read?_compact` — so it is read back.

Design notes: a text is spelled in parts, so that one induction follows the readers of
values, items and members.  The number of levels is an index of the spelling; the
steps of a reader are bounded by the length of the text.  A number has no end of its
own, so nothing may follow that could be part of it.
-/
import TemplateVars.Json.Printer
import TemplateVars.Json.Reader

namespace TemplateVars.Json

open Text

namespace Reader

/-! ### Strings -/

/-- A character is quoted by a short escape, by its code, or stands for itself. -/
theorem quoteChar_cases (c : Char) :
    (∃ d, shortEscape? d = some c ∧ quoteChar c = ['\\', d]) ∨
    (c.toNat < 0x20 ∧ quoteChar c =
      ['\\', 'u', '0', '0', hexDigit (c.toNat / 16), hexDigit (c.toNat % 16)]) ∨
    (c ≠ '\x22' ∧ c ≠ '\\' ∧ ¬c.toNat < 0x20 ∧ quoteChar c = [c]) := by
  unfold quoteChar
  by_cases hmark : c = '\x22'
  · rw [if_pos hmark]
    exact .inl ⟨'\x22', by rw [hmark]; rfl, rfl⟩
  by_cases hslash : c = '\\'
  · rw [if_neg hmark, if_pos hslash]
    exact .inl ⟨'\\', by rw [hslash]; rfl, rfl⟩
  rw [if_neg hmark, if_neg hslash]
  iterate 5
    split
    · next h => exact .inl ⟨_, by rw [h]; rfl, rfl⟩
  split
  · next h => exact .inr (.inl ⟨h, rfl⟩)
  · next h => exact .inr (.inr ⟨hmark, hslash, h, rfl⟩)

theorem hex4?_control :
    ∀ n < 32, hex4? '0' '0' (hexDigit (n / 16)) (hexDigit (n % 16)) = some n := by
  decide +kernel

/-- A quoted character is one piece of a string. -/
theorem piece?_quoteChar (c : Char) (rest : List Char) :
    piece? .strict (quoteChar c ++ rest) = some (.char c (quoteChar c).length) := by
  rcases quoteChar_cases c with
    ⟨d, hd, hquote⟩ | ⟨hcontrol, hquote⟩ | ⟨hmark, hslash, hcontrol, hquote⟩
  · have hu : d ≠ 'u' := fun h => nomatch (h ▸ hd : shortEscape? 'u' = some c)
    rw [hquote]
    simp [piece?, hu, hd]
  · have hcode := hex4?_control c.toNat hcontrol
    have hhigh : isHighSurrogate c.toNat = false := by
      simp [isHighSurrogate]
      omega
    have hlow : isLowSurrogate c.toNat = false := by
      simp [isLowSurrogate]
      omega
    rw [hquote]
    simp [piece?, hcode, hhigh, hlow]
  · rw [hquote]
    simp [piece?, hmark, hslash, hcontrol]

theorem string?_closing (mode : Mode) (rest : List Char) :
    string? mode ('\x22' :: rest) = some ([], rest) := by
  rw [string?]
  rfl

theorem string?_char {mode : Mode} {s : List Char} {c : Char} {n : Nat}
    (h : piece? mode s = some (.char c n)) :
    string? mode s = (string? mode (s.drop n)).map fun (cs, rest) => (c :: cs, rest) := by
  rw [string?]
  split
  · next hnone => cases hnone.symm.trans h
  · next hclosing => cases hclosing.symm.trans h
  · next d m hchar =>
    cases hchar.symm.trans h
    rfl

/-- A quoted text is read back up to its closing mark. -/
theorem string?_quoted (cs rest : List Char) :
    string? .strict (cs.flatMap quoteChar ++ '\x22' :: rest) = some (cs, rest) := by
  induction cs with
  | nil => exact string?_closing .strict rest
  | cons c cs ih =>
    rw [List.flatMap_cons, List.append_assoc, string?_char (piece?_quoteChar c _),
      List.drop_left, ih]
    rfl

/-! ### Space and marks -/

end Reader

theorem skipSpace_cons {c : Char} (h : isSpace c = true) (s : List Char) :
    skipSpace (c :: s) = skipSpace s :=
  List.dropWhile_cons_of_pos h

theorem skipSpace_of_not {c : Char} (h : isSpace c = false) (s : List Char) :
    skipSpace (c :: s) = c :: s :=
  List.dropWhile_cons_of_neg (Bool.eq_false_iff.1 h)

namespace Reader

theorem mark?_space {c : Char} (h : isSpace c = true) (d : Char) (s : List Char) :
    mark? d (c :: s) = mark? d s := by
  rw [mark?, mark?, skipSpace_cons h]

theorem mark?_cons {c : Char} (h : isSpace c = false) (d : Char) (s : List Char) :
    mark? d (c :: s) = if c = d then some s else none := by
  rw [mark?, skipSpace_of_not h]

theorem mark?_spaces {inner : List Char} (h : ∀ c ∈ inner, isSpace c = true) (d : Char)
    (s : List Char) : mark? d (inner ++ s) = mark? d s := by
  induction inner with
  | nil => rfl
  | cons c inner ih =>
    obtain ⟨hc, hinner⟩ := List.forall_mem_cons.1 h
    rw [List.cons_append, mark?_space hc, ih hinner]

theorem value_space {mode : Mode} {c : Char} (h : isSpace c = true) (steps levels : Nat)
    (s : List Char) : value mode steps levels (c :: s) = value mode steps levels s := by
  cases steps with
  | zero => rfl
  | succ steps => rw [value, value, skipSpace_cons h]

theorem items_space {mode : Mode} {c : Char} (h : isSpace c = true) (steps levels : Nat)
    (s : List Char) : items mode steps levels (c :: s) = items mode steps levels s := by
  cases steps with
  | zero => rfl
  | succ steps => rw [items, items, value_space h]

theorem members_space {mode : Mode} {c : Char} (h : isSpace c = true) (steps levels : Nat)
    (s : List Char) : members mode steps levels (c :: s) = members mode steps levels s := by
  cases steps with
  | zero => rfl
  | succ steps => rw [members, members, mark?_space h]

/-! ### Numbers -/

/-- Whether nothing that follows could be part of a number. -/
def EndsNumber (rest : List Char) : Prop :=
  ∀ c ∈ rest.head?, c.isDigit = false ∧ c ≠ '.' ∧ c ≠ 'e' ∧ c ≠ 'E'

theorem endsNumber_cons {c : Char} (h : c.isDigit = false ∧ c ≠ '.' ∧ c ≠ 'e' ∧ c ≠ 'E')
    (rest : List Char) : EndsNumber (c :: rest) := by
  intro d hd
  cases hd
  exact h

theorem endsNumber_of_space {c : Char} (h : isSpace c = true) (rest : List Char) :
    EndsNumber (c :: rest) := by
  have hspaces : ∀ d ∈ [' ', '\n', '\t', '\r'],
      d.isDigit = false ∧ d ≠ '.' ∧ d ≠ 'e' ∧ d ≠ 'E' := by simp
  refine endsNumber_cons (hspaces c ?_) rest
  simpa [isSpace, or_assoc] using h

variable {s rest : List Char}

theorem takeWhile_digits_append (h : EndsNumber rest) :
    (s ++ rest).takeWhile Char.isDigit = s.takeWhile Char.isDigit := by
  have hrest : rest.takeWhile Char.isDigit = [] := by
    cases rest with
    | nil => rfl
    | cons c rest => exact List.takeWhile_cons_of_neg (Bool.eq_false_iff.1 (h c rfl).1)
  rw [List.takeWhile_append, hrest, List.append_nil]
  split
  · next hall => exact ((List.takeWhile_prefix _).eq_of_length hall).symm
  · rfl

theorem digits?_append (h : EndsNumber rest) :
    digits? (s ++ rest) = (digits? s).map fun (ds, r) => (ds, r ++ rest) := by
  unfold digits?
  simp only [takeWhile_digits_append h]
  split
  · rfl
  · rw [List.drop_append_of_le_length (List.takeWhile_prefix _).length_le]
    rfl

theorem fraction?_append (h : EndsNumber rest) :
    fraction? (s ++ rest) = (fraction? s).map fun (ds, r) => (ds, r ++ rest) := by
  cases s with
  | nil =>
    cases rest with
    | nil => rfl
    | cons c rest =>
      have hpoint := (h c rfl).2.1
      simp [fraction?, hpoint]
  | cons c s =>
    by_cases hpoint : c = '.'
    · subst hpoint
      exact digits?_append h
    · simp [fraction?, hpoint]

theorem exponent?_append (h : EndsNumber rest) {negative : Bool} {ds r : List Char}
    (hs : exponent? s = some (negative, ds, r)) :
    exponent? (s ++ rest) = some (negative, ds, r ++ rest) := by
  rcases s with - | ⟨c, s⟩
  · cases hs
    cases rest with
    | nil => rfl
    | cons c rest =>
      obtain ⟨-, -, hsmall, hlarge⟩ := h c rfl
      simp [exponent?, hsmall, hlarge]
  · by_cases hmark : c = 'e' ∨ c = 'E'
    · rcases s with - | ⟨d, s⟩
      · -- a mark has to have digits behind it
        simp [exponent?, hmark, digits?] at hs
      · by_cases hminus : d = '-'
        · subst hminus
          simpa [exponent?, hmark, digits?_append h] using hs
        · by_cases hplus : d = '+'
          · subst hplus
            simpa [exponent?, hmark, digits?_append h] using hs
          · have hdigits := digits?_append (s := d :: s) h
            simp only [List.cons_append] at hdigits
            simpa [exponent?, hmark, hminus, hplus, hdigits] using hs
    · simp only [exponent?, hmark, if_false, List.cons_append, Option.some.injEq,
        Prod.mk.injEq] at hs ⊢
      obtain ⟨rfl, rfl, rfl⟩ := hs
      exact ⟨rfl, rfl, rfl⟩

/-- A text without its sign. -/
def unsigned (s : List Char) : List Char := if s.head? = some '-' then s.tail else s

theorem number?_eq_some {t : NumberText} {r : List Char} :
    number? s = some (t, r) ↔ ∃ whole afterWhole fraction afterFraction negative exponent,
      digits? (unsigned s) = some (whole, afterWhole) ∧
      ¬(whole.head? = some '0' ∧ whole.length ≠ 1) ∧
      fraction? afterWhole = some (fraction, afterFraction) ∧
      exponent? afterFraction = some (negative, exponent, r) ∧
      t = ⟨s.head? = some '-', whole, fraction, negative, exponent⟩ := by
  unfold number? unsigned
  simp only [bind, Option.bind_eq_some_iff]
  constructor
  · rintro ⟨⟨whole, afterWhole⟩, hwhole, h⟩
    split at h
    · exact nomatch h
    · next hzero =>
      obtain ⟨⟨fraction, afterFraction⟩, hfraction, h⟩ := Option.bind_eq_some_iff.1 h
      obtain ⟨⟨negative, exponent, _⟩, hexponent, h⟩ := Option.bind_eq_some_iff.1 h
      cases h
      exact ⟨whole, afterWhole, fraction, afterFraction, negative, exponent, hwhole, hzero,
        hfraction, hexponent, rfl⟩
  · rintro ⟨whole, afterWhole, fraction, afterFraction, negative, exponent, hwhole, hzero,
      hfraction, hexponent, rfl⟩
    refine ⟨_, hwhole, ?_⟩
    rw [if_neg hzero, hfraction, Option.bind_some, hexponent, Option.bind_some]

/-- What stands behind a number does not change it, unless it could be part of one. -/
theorem number?_append (h : EndsNumber rest) {t : NumberText} {r : List Char}
    (hs : number? s = some (t, r)) : number? (s ++ rest) = some (t, r ++ rest) := by
  obtain ⟨whole, afterWhole, fraction, afterFraction, negative, exponent, hwhole, hzero,
    hfraction, hexponent, rfl⟩ := number?_eq_some.1 hs
  rcases s with - | ⟨c, s⟩
  · exact nomatch hwhole
  have hunsigned : unsigned (c :: s ++ rest) = unsigned (c :: s) ++ rest := by
    by_cases hsign : c = '-' <;> simp [unsigned, hsign]
  refine number?_eq_some.2 ⟨whole, afterWhole ++ rest, fraction, afterFraction ++ rest, negative,
    exponent, ?_, hzero, ?_, exponent?_append h hexponent, rfl⟩
  · rw [hunsigned, digits?_append h, hwhole]
    rfl
  · rw [fraction?_append h, hfraction]
    rfl

/-- A number starts with a digit or its sign. -/
theorem number?_head {c : Char} {r : List Char} {t : NumberText}
    (hs : number? (c :: s) = some (t, r)) : c = '-' ∨ c.isDigit = true := by
  obtain ⟨whole, _, _, _, _, _, hwhole, -⟩ := number?_eq_some.1 hs
  by_cases hsign : c = '-'
  · exact .inl hsign
  · cases hdigit : c.isDigit with
    | true => exact .inr rfl
    | false => simp [unsigned, hsign, digits?, hdigit] at hwhole

end Reader

/-- Whether a text is a number that is not out of range. -/
def IsNumber (literal : String) : Prop :=
  ∃ t, Reader.number? literal.toList = some (t, []) ∧ t.inRange = true

theorem Reader.numberValue?_append {literal : String} (hnumber : IsNumber literal)
    {rest : List Char} (h : EndsNumber rest) :
    numberValue? .strict (literal.toList ++ rest) = some (.number literal, rest) := by
  obtain ⟨t, ht, hrange⟩ := hnumber
  have hlength : (literal.toList ++ rest).length - rest.length = literal.toList.length := by
    rw [List.length_append, Nat.add_sub_cancel]
  rw [numberValue?, number?_append h ht]
  simp [hrange]

/-! ### Spelled documents -/

theorem toList_quote (s : String) :
    (quote s).toList = '\x22' :: (s.toList.flatMap quoteChar ++ ['\x22']) := by
  rw [quote, String.toList_ofList]
  rfl

/-- A part of a document. -/
inductive Part where
  | value (v : Json)
  /-- The items of an array behind its bracket or a comma, up to its end. -/
  | items (vs : List Json)
  /-- What stands behind an item: the end of the array, or a comma and more items. -/
  | itemsEnd (vs : List Json)
  /-- The members of an object behind its brace or a comma, up to its end. -/
  | members (ms : List (String × Json))
  /-- What stands behind a member: the end of the object, or a comma and more members. -/
  | membersEnd (ms : List (String × Json))

/-- Whether a text spells a part of a document, which has at most some levels of
brackets. -/
inductive Spells : Nat → Part → List Char → Prop where
  | null {n : Nat} : Spells n (.value .null) "null".toList
  | true {n : Nat} : Spells n (.value (.bool true)) "true".toList
  | false {n : Nat} : Spells n (.value (.bool false)) "false".toList
  | number {n : Nat} {literal : String} (h : IsNumber literal) :
      Spells n (.value (.number literal)) literal.toList
  | string {n : Nat} (s : String) : Spells n (.value (.string s)) (quote s).toList
  | emptyArray {n : Nat} {inner : List Char} (h : ∀ c ∈ inner, isSpace c = true) :
      Spells (n + 1) (.value (.array [])) ('[' :: inner ++ [']'])
  | array {n : Nat} {vs : List Json} {s : List Char} (h : Spells n (.items vs) s) :
      Spells (n + 1) (.value (.array vs)) ('[' :: s)
  | emptyObject {n : Nat} {inner : List Char} (h : ∀ c ∈ inner, isSpace c = true) :
      Spells (n + 1) (.value (.object [])) ('{' :: inner ++ ['}'])
  | object {n : Nat} {ms : List (String × Json)} {s : List Char} (h : Spells n (.members ms) s) :
      Spells (n + 1) (.value (.object ms)) ('{' :: s)
  | item {n : Nat} {v : Json} {vs : List Json} {s t : List Char} (hv : Spells n (.value v) s)
      (hvs : Spells n (.itemsEnd vs) t) : Spells n (.items (v :: vs)) (s ++ t)
  | noItem {n : Nat} : Spells n (.itemsEnd []) [']']
  | moreItems {n : Nat} {vs : List Json} {s : List Char} (h : Spells n (.items vs) s) :
      Spells n (.itemsEnd vs) (',' :: s)
  | member {n : Nat} {key : String} {v : Json} {ms : List (String × Json)} {s t : List Char}
      (hv : Spells n (.value v) s) (hms : Spells n (.membersEnd ms) t) :
      Spells n (.members ((key, v) :: ms)) ((quote key).toList ++ ':' :: s ++ t)
  | noMember {n : Nat} : Spells n (.membersEnd []) ['}']
  | moreMembers {n : Nat} {ms : List (String × Json)} {s : List Char}
      (h : Spells n (.members ms) s) : Spells n (.membersEnd ms) (',' :: s)
  | space {n : Nat} {p : Part} {c : Char} {s : List Char} (hc : isSpace c = true)
      (h : Spells n p s) : Spells n p (c :: s)

/-- Whether a text ends a list, or goes on with a comma and more of it, as a reader of
the list takes it. -/
def ReadsEnd {α : Type} (closing : Char)
    (reader : Nat → Nat → List Char → Option (List α × List Char)) (n : Nat) (s : List Char)
    (as : List α) : Prop :=
  ∀ rest, Reader.EndsNumber (s ++ rest) ∧
    match Reader.mark? ',' (s ++ rest) with
    | none => as = [] ∧ Reader.mark? closing (s ++ rest) = some rest
    | some more => ∀ steps levels, s.length ≤ steps + 1 → n ≤ levels →
        reader steps levels more = some (as, rest)

/-- Whether a text is read back as the part that it spells, whatever follows it. -/
def Part.ReadBack (n : Nat) (s : List Char) : Part → Prop
  | .value v => ∀ steps levels rest, s.length ≤ steps → n ≤ levels → Reader.EndsNumber rest →
      Reader.value .strict steps levels (s ++ rest) = some (v, rest)
  | .items vs => ∀ steps levels rest, s.length ≤ steps → n ≤ levels →
      Reader.items .strict steps levels (s ++ rest) = some (vs, rest)
  | .itemsEnd vs => ReadsEnd ']' (Reader.items .strict) n s vs
  | .members ms => ∀ steps levels rest, s.length ≤ steps → n ≤ levels →
      Reader.members .strict steps levels (s ++ rest) = some (ms, rest)
  | .membersEnd ms => ReadsEnd '}' (Reader.members .strict) n s ms

theorem Spells.length_pos {n : Nat} {p : Part} {s : List Char} (h : Spells n p s) :
    0 < s.length := by
  induction h with
  | null => decide
  | true => decide
  | false => decide
  | number h =>
    obtain ⟨t, ht, -⟩ := h
    refine List.length_pos_iff.2 fun hnil => ?_
    rw [hnil] at ht
    exact nomatch ht
  | string s => simp [toList_quote]
  | item _ _ ihv ihvs => simpa using Nat.add_pos_left ihv _
  | member _ _ _ _ => simp [toList_quote]
  | _ => simp

namespace ReadsEnd

variable {α : Type} {closing : Char} {reader : Nat → Nat → List Char → Option (List α × List Char)}
  {n : Nat} {s : List Char} {as : List α}

theorem close (hspace : isSpace closing = false) (hcomma : closing ≠ ',')
    (hnumber : closing.isDigit = false ∧ closing ≠ '.' ∧ closing ≠ 'e' ∧ closing ≠ 'E') :
    ReadsEnd closing reader n [closing] [] := by
  intro rest
  refine ⟨Reader.endsNumber_cons hnumber rest, ?_⟩
  rw [List.singleton_append, Reader.mark?_cons hspace, if_neg hcomma, Reader.mark?_cons hspace,
    if_pos rfl]
  exact ⟨rfl, rfl⟩

theorem more (h : ∀ steps levels rest, s.length ≤ steps → n ≤ levels →
      reader steps levels (s ++ rest) = some (as, rest)) :
    ReadsEnd closing reader n (',' :: s) as := by
  intro rest
  refine ⟨Reader.endsNumber_cons (by decide) _, ?_⟩
  rw [List.cons_append, Reader.mark?_cons (by decide), if_pos rfl]
  intro steps levels hsteps hlevels
  exact h steps levels rest (Nat.le_of_succ_le_succ hsteps) hlevels

theorem space {c : Char} (hc : isSpace c = true) (h : ReadsEnd closing reader n s as) :
    ReadsEnd closing reader n (c :: s) as := by
  intro rest
  obtain ⟨-, hend⟩ := h rest
  refine ⟨Reader.endsNumber_of_space hc _, ?_⟩
  rw [List.cons_append, Reader.mark?_space hc, Reader.mark?_space hc]
  split
  · next hmark =>
    rw [hmark] at hend
    exact hend
  · next more hmark =>
    rw [hmark] at hend
    exact fun steps levels hsteps => hend steps levels (Nat.le_of_succ_le hsteps)

end ReadsEnd

namespace Reader

theorem mark?_eq_some {c : Char} {s r : List Char} : mark? c s = some r ↔ skipSpace s = c :: r := by
  unfold mark?
  split
  · next d t hs =>
    rw [hs, List.cons.injEq]
    split
    · next heq => simp [heq]
    · next hne => simp [hne]
  · next hs => simp [hs]

/-- No value starts with the end of an array. -/
theorem items_of_mark {steps levels : Nat} {s r : List Char} (h : mark? ']' s = some r) :
    items .strict steps levels s = none := by
  have hnumber : numberValue? .strict (']' :: r) = none := by
    cases hr : number? (']' :: r) with
    | none => rw [numberValue?, hr]; rfl
    | some p =>
      rcases number?_head hr with hsign | hdigit
      · exact absurd hsign (by decide)
      · exact absurd hdigit (by decide)
  have hvalue : value .strict (steps - 1) levels s = none := by
    cases steps - 1 with
    | zero => rfl
    | succ steps => simp [value, mark?_eq_some.1 h, hnumber]
  cases steps with
  | zero => rfl
  | succ steps => rw [items, show value .strict steps levels s = none from hvalue]

/-- No member starts with the end of an object. -/
theorem members_of_mark {steps levels : Nat} {s r : List Char} (h : mark? '}' s = some r) :
    members .strict steps levels s = none := by
  have hmark : mark? '\x22' s = none := by
    rw [mark?, mark?_eq_some.1 h]
    rfl
  cases steps with
  | zero => rfl
  | succ steps => rw [members, hmark]; rfl

end Reader

namespace Part.ReadBack

open Reader

variable {n : Nat} {s t : List Char}

theorem item {v : Json} {vs : List Json} (hv : (Part.value v).ReadBack n s)
    (hvs : (Part.itemsEnd vs).ReadBack n t) (ht : 0 < t.length) :
    (Part.items (v :: vs)).ReadBack n (s ++ t) := by
  intro steps levels rest hsteps hlevels
  rw [List.length_append] at hsteps
  obtain ⟨steps, rfl⟩ : ∃ k, steps = k + 1 := Nat.exists_eq_add_one.2 (by omega)
  obtain ⟨hends, hend⟩ := hvs rest
  rw [Reader.items, List.append_assoc, hv steps levels _ (by omega) hlevels hends]
  cases hmark : mark? ',' (t ++ rest) with
  | none =>
    rw [hmark] at hend
    obtain ⟨rfl, hclose⟩ := hend
    simp [hmark, hclose]
  | some more =>
    rw [hmark] at hend
    simp [hmark, hend steps levels (by omega) hlevels]

theorem member {key : String} {v : Json} {ms : List (String × Json)}
    (hv : (Part.value v).ReadBack n s) (hms : (Part.membersEnd ms).ReadBack n t)
    (ht : 0 < t.length) :
    (Part.members ((key, v) :: ms)).ReadBack n ((quote key).toList ++ ':' :: s ++ t) := by
  intro steps levels rest hsteps hlevels
  simp only [toList_quote, List.length_append, List.length_cons] at hsteps
  obtain ⟨steps, rfl⟩ : ∃ k, steps = k + 1 := Nat.exists_eq_add_one.2 (by omega)
  obtain ⟨hends, hend⟩ := hms rest
  have htext : (quote key).toList ++ ':' :: s ++ t ++ rest =
      '\x22' :: (key.toList.flatMap quoteChar ++ '\x22' :: ':' :: (s ++ (t ++ rest))) := by
    simp [toList_quote]
  rw [htext, Reader.members, mark?_cons (by decide), if_pos rfl, Option.bind_some, string?_quoted]
  simp only [mark?_cons (show isSpace ':' = false by decide), if_pos, Option.bind_some,
    hv steps levels _ (by omega : s.length ≤ steps) hlevels hends, String.ofList_toList]
  cases hmark : mark? ',' (t ++ rest) with
  | none =>
    rw [hmark] at hend
    obtain ⟨rfl, hclose⟩ := hend
    simp [hclose]
  | some more =>
    rw [hmark] at hend
    simp [hend steps levels (by omega) hlevels]

theorem array {vs : List Json} (h : (Part.items vs).ReadBack n s) :
    (Part.value (.array vs)).ReadBack (n + 1) ('[' :: s) := by
  intro steps levels rest hsteps hlevels _
  obtain ⟨steps, rfl⟩ : ∃ k, steps = k + 1 := Nat.exists_eq_add_one.2 (Nat.zero_lt_of_lt hsteps)
  have hitems := h steps (levels - 1) rest (Nat.le_of_succ_le_succ hsteps) (by omega)
  have hlevel : levels ≠ 0 := by omega
  have hmark : mark? ']' (s ++ rest) = none := by
    refine Option.eq_none_iff_forall_ne_some.2 fun r hr => ?_
    exact nomatch (items_of_mark hr).symm.trans hitems
  rw [List.cons_append, Reader.value, skipSpace_of_not (by decide)]
  simp [hlevel, hmark, hitems]

theorem object {ms : List (String × Json)} (h : (Part.members ms).ReadBack n s) :
    (Part.value (.object ms)).ReadBack (n + 1) ('{' :: s) := by
  intro steps levels rest hsteps hlevels _
  obtain ⟨steps, rfl⟩ : ∃ k, steps = k + 1 := Nat.exists_eq_add_one.2 (Nat.zero_lt_of_lt hsteps)
  have hmembers := h steps (levels - 1) rest (Nat.le_of_succ_le_succ hsteps) (by omega)
  have hlevel : levels ≠ 0 := by omega
  have hmark : mark? '}' (s ++ rest) = none := by
    refine Option.eq_none_iff_forall_ne_some.2 fun r hr => ?_
    exact nomatch (members_of_mark hr).symm.trans hmembers
  rw [List.cons_append, Reader.value, skipSpace_of_not (by decide)]
  simp [hlevel, hmark, hmembers]

theorem emptyArray (h : ∀ c ∈ s, isSpace c = true) :
    (Part.value (.array [])).ReadBack (n + 1) ('[' :: s ++ [']']) := by
  intro steps levels rest hsteps hlevels _
  obtain ⟨steps, rfl⟩ : ∃ k, steps = k + 1 := Nat.exists_eq_add_one.2 (Nat.zero_lt_of_lt hsteps)
  have hlevel : levels ≠ 0 := by omega
  have hmark : mark? ']' (s ++ ']' :: rest) = some rest :=
    (mark?_spaces h ']' _).trans (mark?_cons (by decide) ']' rest)
  rw [List.cons_append, List.cons_append, Reader.value, skipSpace_of_not (by decide)]
  simp [hlevel, hmark]

theorem emptyObject (h : ∀ c ∈ s, isSpace c = true) :
    (Part.value (.object [])).ReadBack (n + 1) ('{' :: s ++ ['}']) := by
  intro steps levels rest hsteps hlevels _
  obtain ⟨steps, rfl⟩ : ∃ k, steps = k + 1 := Nat.exists_eq_add_one.2 (Nat.zero_lt_of_lt hsteps)
  have hlevel : levels ≠ 0 := by omega
  have hmark : mark? '}' (s ++ '}' :: rest) = some rest :=
    (mark?_spaces h '}' _).trans (mark?_cons (by decide) '}' rest)
  rw [List.cons_append, List.cons_append, Reader.value, skipSpace_of_not (by decide)]
  simp [hlevel, hmark]

theorem string (text : String) : (Part.value (.string text)).ReadBack n (quote text).toList := by
  intro steps levels rest hsteps hlevels _
  rw [toList_quote] at hsteps ⊢
  obtain ⟨steps, rfl⟩ : ∃ k, steps = k + 1 := Nat.exists_eq_add_one.2 (Nat.zero_lt_of_lt hsteps)
  rw [List.cons_append, List.append_assoc, Reader.value, skipSpace_of_not (by decide)]
  simp [string?_quoted]

theorem number {literal : String} (h : IsNumber literal) :
    (Part.value (.number literal)).ReadBack n literal.toList := by
  intro steps levels rest hsteps hlevels hrest
  have hread := numberValue?_append h hrest
  obtain ⟨t, ht, -⟩ := h
  rcases hliteral : literal.toList with - | ⟨c, s⟩
  · rw [hliteral] at ht
    exact nomatch ht
  rw [hliteral] at ht hread hsteps
  obtain ⟨steps, rfl⟩ : ∃ k, steps = k + 1 := Nat.exists_eq_add_one.2 (Nat.zero_lt_of_lt hsteps)
  have hstart : ∀ d ∈ ['{', '[', '\x22', 'n', 't', 'f', ' ', '\n', '\t', '\r'], c ≠ d := by
    have hothers : ∀ d ∈ ['{', '[', '\x22', 'n', 't', 'f', ' ', '\n', '\t', '\r'],
        ¬(d = '-' ∨ d.isDigit = true) := by simp
    rintro d hd rfl
    exact hothers c hd (number?_head ht)
  simp only [List.forall_mem_cons] at hstart
  obtain ⟨hbrace, hbracket, hmark, hn, ht', hf, hspaces⟩ := hstart
  have hspace : isSpace c = false := by simp [isSpace, hspaces]
  rw [List.cons_append] at hread ⊢
  rw [Reader.value, skipSpace_of_not hspace]
  simp [hbrace, hbracket, hmark, hn, ht', hf, hread]

theorem noItem : (Part.itemsEnd []).ReadBack n [']'] := by
  show ReadsEnd ']' (Reader.items .strict) n [']'] []
  exact ReadsEnd.close (by decide) (by decide) (by decide)

theorem noMember : (Part.membersEnd []).ReadBack n ['}'] := by
  show ReadsEnd '}' (Reader.members .strict) n ['}'] []
  exact ReadsEnd.close (by decide) (by decide) (by decide)

theorem moreItems {vs : List Json} (h : (Part.items vs).ReadBack n s) :
    (Part.itemsEnd vs).ReadBack n (',' :: s) := by
  show ReadsEnd ']' (Reader.items .strict) n (',' :: s) vs
  exact ReadsEnd.more h

theorem moreMembers {ms : List (String × Json)} (h : (Part.members ms).ReadBack n s) :
    (Part.membersEnd ms).ReadBack n (',' :: s) := by
  show ReadsEnd '}' (Reader.members .strict) n (',' :: s) ms
  exact ReadsEnd.more h

/-- Space in front of a part is passed over. -/
theorem space {p : Part} {c : Char} (hc : isSpace c = true) (h : p.ReadBack n s) :
    p.ReadBack n (c :: s) := by
  cases p with
  | value v =>
    intro steps levels rest hsteps hlevels hrest
    rw [List.cons_append, value_space hc]
    exact h steps levels rest (Nat.le_of_succ_le hsteps) hlevels hrest
  | items vs =>
    intro steps levels rest hsteps hlevels
    rw [List.cons_append, items_space hc]
    exact h steps levels rest (Nat.le_of_succ_le hsteps) hlevels
  | members ms =>
    intro steps levels rest hsteps hlevels
    rw [List.cons_append, members_space hc]
    exact h steps levels rest (Nat.le_of_succ_le hsteps) hlevels
  | itemsEnd vs => exact ReadsEnd.space hc h
  | membersEnd ms => exact ReadsEnd.space hc h

end Part.ReadBack

/-- What is spelled is read back. -/
theorem Spells.readBack {n : Nat} {p : Part} {s : List Char} (h : Spells n p s) :
    p.ReadBack n s := by
  -- on how the text is spelled, which is how the readers go through it
  induction h with
  | null =>
    intro steps levels rest hsteps hlevels hrest
    obtain ⟨steps, rfl⟩ : ∃ k, steps = k + 1 := Nat.exists_eq_add_one.2 (Nat.zero_lt_of_lt hsteps)
    rfl
  | true =>
    intro steps levels rest hsteps hlevels hrest
    obtain ⟨steps, rfl⟩ : ∃ k, steps = k + 1 := Nat.exists_eq_add_one.2 (Nat.zero_lt_of_lt hsteps)
    rfl
  | false =>
    intro steps levels rest hsteps hlevels hrest
    obtain ⟨steps, rfl⟩ : ∃ k, steps = k + 1 := Nat.exists_eq_add_one.2 (Nat.zero_lt_of_lt hsteps)
    rfl
  | number h => exact .number h
  | string s => exact .string s
  | emptyArray h => exact .emptyArray h
  | array _ ih => exact .array ih
  | emptyObject h => exact .emptyObject h
  | object _ ih => exact .object ih
  | item _ hvs ihv ihvs => exact .item ihv ihvs hvs.length_pos
  | noItem => exact .noItem
  | moreItems _ ih => exact .moreItems ih
  | member _ hms ihv ihms => exact .member ihv ihms hms.length_pos
  | noMember => exact .noMember
  | moreMembers _ ih => exact .moreMembers ih
  | space hc _ ih => exact .space hc ih

/-- Whether a text is nothing but space between the parts of a document. -/
def IsGap (s : String) : Prop := ∀ c ∈ s.toList, isSpace c = true

theorem isGap_empty : IsGap "" := nofun

theorem isGap_of_all {s : String} (h : s.toList.all isSpace = true) : IsGap s :=
  List.all_eq_true.1 h

theorem skipSpace_gap {s : List Char} (h : ∀ c ∈ s, isSpace c = true) : skipSpace s = [] := by
  induction s with
  | nil => rfl
  | cons c s ih =>
    obtain ⟨hc, hs⟩ := List.forall_mem_cons.1 h
    rw [skipSpace_cons hc, ih hs]

/-- A text that spells a document is read as that document, also with space behind it. -/
theorem read?_append_gap {v : Json} {s gap : String}
    (h : Spells maxNesting (.value v) s.toList) (hgap : IsGap gap) :
    read? (s ++ gap) = some v := by
  have hlength : s.toList.length ≤ Reader.stepsFor (s ++ gap).toList := by
    rw [Reader.stepsFor, String.toList_append, List.length_append]
    omega
  have hends : Reader.EndsNumber gap.toList := by
    intro c hc
    exact Reader.endsNumber_of_space (hgap c (List.mem_of_mem_head? hc)) [] c rfl
  have hread := h.readBack _ _ _ hlength Nat.le.refl hends
  rw [← String.toList_append] at hread
  rw [read?, hread]
  simp [skipSpace_gap hgap]

theorem read?_of_spells {v : Json} {s : String} (h : Spells maxNesting (.value v) s.toList) :
    read? s = some v := by
  have hread := read?_append_gap h isGap_empty
  rwa [String.append_empty] at hread

/-! ### Documents in one line -/

/-- Whether a document has at most some levels of brackets and no numbers out of range. -/
inductive Readable : Nat → Json → Prop where
  | null {n : Nat} : Readable n .null
  | bool {n : Nat} (b : Bool) : Readable n (.bool b)
  | number {n : Nat} {literal : String} (h : IsNumber literal) : Readable n (.number literal)
  | string {n : Nat} (s : String) : Readable n (.string s)
  | array {n : Nat} {vs : List Json} (h : ∀ v ∈ vs, Readable n v) : Readable (n + 1) (.array vs)
  | object {n : Nat} {ms : List (String × Json)} (h : ∀ m ∈ ms, Readable n m.2) :
      Readable (n + 1) (.object ms)

/-! Items and members may have space behind the commas and colons, and in front of the end. -/

section

variable {n : Nat} {text : Json → String} {gap ending : String}

theorem spells_behind_gap {p : Part} {s : List Char} (hgap : IsGap gap) (h : Spells n p s) :
    Spells n p (gap.toList ++ s) := by
  unfold IsGap at hgap
  generalize gap.toList = inner at hgap ⊢
  induction inner with
  | nil => exact h
  | cons c inner ih =>
    obtain ⟨hc, hinner⟩ := List.forall_mem_cons.1 hgap
    exact .space hc (ih hinner)

theorem spells_items (hgap : IsGap gap) (hending : IsGap ending) {v : Json} {vs : List Json}
    (h : ∀ w ∈ v :: vs, Spells n (.value w) (text w).toList) :
    Spells n (.items (v :: vs))
      (((("," ++ gap).intercalate ((v :: vs).map text)) ++ ending).toList ++ [']']) := by
  have hend : Spells n (.itemsEnd []) (ending.toList ++ [']']) := spells_behind_gap hending .noItem
  induction vs generalizing v with
  | nil => simpa using Spells.item (h v List.mem_cons_self) hend
  | cons w vs ih =>
    obtain ⟨hv, hvs⟩ := List.forall_mem_cons.1 h
    have hmore := Spells.moreItems (spells_behind_gap hgap (ih hvs))
    simpa [String.intercalate_cons_cons] using Spells.item hv hmore

/-- A member of an object, with space between the colon and the value. -/
def memberText (gap : String) (text : Json → String) (m : String × Json) : String :=
  quote m.1 ++ (":" ++ gap) ++ text m.2

theorem spells_members {colonGap : String} (hcolon : IsGap colonGap) (hgap : IsGap gap)
    (hending : IsGap ending) {m : String × Json} {ms : List (String × Json)}
    (h : ∀ k ∈ m :: ms, Spells n (.value k.2) (text k.2).toList) :
    Spells n (.members (m :: ms))
      (((("," ++ gap).intercalate ((m :: ms).map (memberText colonGap text))) ++ ending).toList ++
        ['}']) := by
  have hend : Spells n (.membersEnd []) (ending.toList ++ ['}']) :=
    spells_behind_gap hending .noMember
  induction ms generalizing m with
  | nil =>
    have hvalue := spells_behind_gap hcolon (h m List.mem_cons_self)
    simpa [memberText] using @Spells.member n m.1 _ _ _ _ hvalue hend
  | cons k ms ih =>
    obtain ⟨hm, hms⟩ := List.forall_mem_cons.1 h
    have hvalue := spells_behind_gap hcolon hm
    have hmore := Spells.moreMembers (spells_behind_gap hgap (ih hms))
    simpa [memberText, String.intercalate_cons_cons] using
      @Spells.member n m.1 _ _ _ _ hvalue hmore

end

theorem compactItems_eq (vs : List Json) : compactItems vs = vs.map compact := by
  induction vs with
  | nil => rfl
  | cons v vs ih => rw [compactItems, ih, List.map_cons]

theorem compactMembers_eq (ms : List (String × Json)) :
    compactMembers ms = ms.map (memberText "" compact) := by
  induction ms with
  | nil => rfl
  | cons m ms ih => rw [compactMembers, ih, List.map_cons, memberText, String.append_empty]

/-- A document in one line spells the document. -/
theorem Readable.spells {n : Nat} {v : Json} (h : Readable n v) :
    Spells n (.value v) v.compact.toList := by
  induction h with
  | null => exact .null
  | bool b => cases b with
    | true => exact .true
    | false => exact .false
  | number h => exact .number h
  | string s => exact .string s
  | @array n vs _ ih =>
    rw [compact, compactItems_eq]
    cases vs with
    | nil => exact @Spells.emptyArray n [] nofun
    | cons v vs =>
      have hitems := spells_items isGap_empty isGap_empty ih
      simpa using Spells.array hitems
  | @object n ms _ ih =>
    rw [compact, compactMembers_eq]
    cases ms with
    | nil => exact @Spells.emptyObject n [] nofun
    | cons m ms =>
      have hmembers := spells_members isGap_empty isGap_empty isGap_empty ih
      simpa using Spells.object hmembers

/-- A document in one line is read back. -/
theorem read?_compact {v : Json} (h : Readable maxNesting v) : read? v.compact = some v :=
  read?_of_spells h.spells

end TemplateVars.Json
