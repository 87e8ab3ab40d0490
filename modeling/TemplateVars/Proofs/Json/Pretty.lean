/-
Documents over several lines, and the counts in them.

* `Number.ofRatio_ne_infinite` — a quotient of a bounded number is in range;
* `isNumber_repr` — a count that fits a word of 64 bits is a number of JSON, and
  `natOfDigits_toDigits` gives it back;
* `Readable.spells_pretty` — a document over several lines is a spelling of it;
* `read?_pretty` — so it is read back, also with a line break behind it.

Design notes: the strict reader computes a number with two roundings to see whether it is
in range.  For a count the bounds are far from the limit, so they are kept crude.
-/
import TemplateVars.Proofs.Json.Spelling

namespace TemplateVars

open Text

/-! ### Numbers in range -/

theorem roundHalfEven_le (num den : Nat) : roundHalfEven num den ≤ num + 1 := by
  have hq := Nat.div_le_self num den
  unfold roundHalfEven
  simp only
  split
  · omega
  · split <;> omega

theorem power_two_le {exponent : Int} {k : Nat} (h : exponent ≤ k) :
    power 2 exponent ≤ Nat.pow 2 k :=
  Nat.pow_le_pow_right (by decide) (by omega)

namespace Number

/-- The number with a rounded significand, which may have become one digit longer. -/
def ofRounded (significand : Nat) (exponent : Int) : Number :=
  let (significand, exponent) :=
    if significand = Nat.pow 2 53 then (Nat.pow 2 52, exponent + 1) else (significand, exponent)
  if exponent > maxExponent then infinite else finite significand exponent

/-- The exponent of a quotient is known from the numbers of binary digits, up to one. -/
theorem ofRatio_eq_ofRounded {num : Nat} (h : num ≠ 0) (den : Nat) :
    ∃ top exponent : Int, (num.log2 : Int) - den.log2 - 1 ≤ top ∧
      top ≤ (num.log2 : Int) - den.log2 ∧ exponent = max (top - 52) minExponent ∧
      ofRatio num den =
        ofRounded (roundHalfEven (num * power 2 (-exponent)) (den * power 2 exponent))
          exponent := by
  rw [ofRatio, if_neg h]
  refine ⟨_, _, ?_, ?_, rfl, rfl⟩
  · split <;> omega
  · split <;> omega

theorem ofRounded_eq (significand : Nat) {exponent : Int} (h : exponent ≤ 970) :
    ∃ m e, ofRounded significand exponent = finite m e ∧ m ≤ significand ∧ e ≤ exponent + 1 := by
  have hfits : ¬exponent > maxExponent ∧ ¬exponent + 1 > maxExponent := by
    simp only [maxExponent]
    omega
  unfold ofRounded
  by_cases hlong : significand = Nat.pow 2 53
  · simp only [if_pos hlong, if_neg hfits.2]
    exact ⟨_, _, rfl, by rw [hlong]; decide, Int.le_refl _⟩
  · simp only [if_neg hlong, if_neg hfits.1]
    exact ⟨_, _, rfl, Nat.le_refl _, by omega⟩

theorem ofRatio_ne_infinite {num k : Nat} (hk : k ≤ 1023) (h : num < Nat.pow 2 k) (den : Nat) :
    ofRatio num den ≠ infinite := by
  by_cases hnum : num = 0
  · rw [hnum]
    rintro ⟨⟩
  have hlog : num.log2 < k := (Nat.log2_lt hnum).2 h
  obtain ⟨top, exponent, -, htop, hexponent, heq⟩ := ofRatio_eq_ofRounded hnum den
  have hle : exponent ≤ 970 := by
    simp only [hexponent, minExponent]
    omega
  obtain ⟨m, e, hfinite, -⟩ := ofRounded_eq _ hle
  rw [heq, hfinite]
  rintro ⟨⟩

/-- A number of 64 bits is rounded to one that is far below the limit. -/
theorem ofNat_finite {n : Nat} (h : n < Nat.pow 2 64) :
    ∃ m e, ofNat n = finite m e ∧ m * power 2 e < Nat.pow 2 200 := by
  by_cases hn : n = 0
  · exact ⟨0, minExponent, by rw [hn]; rfl, by decide⟩
  have hlog : n.log2 < 64 := (Nat.log2_lt hn).2 h
  have hone : Nat.log2 1 = 0 := by decide
  obtain ⟨top, exponent, hlow, hhigh, hexponent, heq⟩ := ofRatio_eq_ofRounded hn 1
  have hrange : -53 ≤ exponent ∧ exponent ≤ 11 := by
    simp only [hexponent, minExponent]
    omega
  obtain ⟨m, e, hfinite, hm, he⟩ := ofRounded_eq
    (roundHalfEven (n * power 2 (-exponent)) (1 * power 2 exponent))
    (show exponent ≤ 970 by omega)
  have hsignificand : m ≤ Nat.pow 2 64 * Nat.pow 2 53 + 1 := by
    refine Nat.le_trans (Nat.le_trans hm (roundHalfEven_le _ _)) (Nat.succ_le_succ ?_)
    exact Nat.mul_le_mul (Nat.le_of_lt h) (power_two_le (by omega))
  have hpower : power 2 e ≤ Nat.pow 2 12 := power_two_le (by omega)
  exact ⟨m, e, heq.trans hfinite,
    Nat.lt_of_le_of_lt (Nat.mul_le_mul hsignificand hpower) (by decide)⟩

theorem mul_one_ne_infinite {n : Nat} (h : n < Nat.pow 2 64) :
    (ofNat n).mul (ofNat 1) ≠ infinite := by
  obtain ⟨m, e, hn, hbound⟩ := ofNat_finite h
  have hone : ofNat 1 = finite (Nat.pow 2 52) (-52) := by decide +kernel
  rw [hn, hone]
  refine ofRatio_ne_infinite (k := 253) (by decide) ?_ _
  exact Nat.lt_of_le_of_lt (Nat.mul_le_mul (Nat.le_of_lt hbound)
    (show Nat.pow 2 52 * power 2 (-52) ≤ Nat.pow 2 52 by decide)) (by decide)

end Number

namespace Json

/-! ### Counts -/

theorem digitValue?_digitChar : ∀ k < 10, digitValue? 10 k.digitChar = some k := by
  decide

theorem toDigits_snoc {n k : Nat} (hk : k < 10) (hn : 0 < n) :
    Nat.toDigits 10 (10 * n + k) = Nat.toDigits 10 n ++ [k.digitChar] := by
  rw [← Nat.toDigits_append_toDigits (by decide) hn hk, Nat.toDigits_of_lt_base hk]

/-- The digits of a count give back the count. -/
theorem natOfDigits_toDigits (n : Nat) : natOfDigits 10 (Nat.toDigits 10 n) = n := by
  induction n using Nat.base_induction 10 (by decide) with
  | single k hk => simp [Nat.toDigits_of_lt_base hk, natOfDigits, digitValue?_digitChar k hk]
  | digit n k hk hn ih =>
    rw [natOfDigits] at ih
    rw [toDigits_snoc hk hn, natOfDigits, List.foldl_append, ih]
    simp [digitValue?_digitChar k hk, Nat.mul_comm]

/-- A number other than zero does not start with a zero. -/
theorem head?_toDigits {n : Nat} (h : n ≠ 0) : (Nat.toDigits 10 n).head? ≠ some '0' := by
  induction n using Nat.base_induction 10 (by decide) with
  | single k hk =>
    have hchars : ∀ k < 10, k ≠ 0 → k.digitChar ≠ '0' := by decide
    rw [Nat.toDigits_of_lt_base hk]
    simpa using hchars k hk h
  | digit n k hk hn ih =>
    rw [toDigits_snoc hk hn, List.head?_append, Option.or_of_isSome]
    · exact ih (by omega)
    · simp

namespace Reader

theorem leadingDigits_append {m k : Nat} {ds : List Char} (h : leadingDigits m ds = (k, 0))
    (es : List Char) : leadingDigits m (ds ++ es) = leadingDigits k es := by
  induction ds generalizing m with
  | nil =>
    cases h
    rfl
  | cons d ds ih =>
    simp only [leadingDigits, List.cons_append] at h ⊢
    split at h
    · next hfits =>
      rw [if_pos hfits]
      exact ih h
    · exact nomatch h

/-- A count of 64 bits is all there is to its leading digits. -/
theorem leadingDigits_toDigits {n : Nat} (h : n < Nat.pow 2 64) :
    leadingDigits 0 (Nat.toDigits 10 n) = (n, 0) := by
  induction n using Nat.base_induction 10 (by decide) with
  | single k hk =>
    simp [Nat.toDigits_of_lt_base hk, leadingDigits, digitValue?_digitChar k hk]
    omega
  | digit n k hk hn ih =>
    rw [Nat.mul_comm] at h
    rw [toDigits_snoc hk hn, leadingDigits_append (ih (by omega)), Nat.mul_comm 10 n]
    simp only [leadingDigits, digitValue?_digitChar k hk, Option.getD_some, if_pos h]

theorem digits?_all {ds : List Char} (hne : ds ≠ []) (h : ∀ d ∈ ds, d.isDigit = true) :
    digits? ds = some (ds, []) := by
  have htake : ds.takeWhile Char.isDigit = ds := by
    rw [← List.append_nil ds, List.takeWhile_append_of_pos h]
    rfl
  rw [digits?, htake, if_neg hne, List.drop_length]

end Reader

/-- A count that fits a word of 64 bits is a number in range. -/
theorem isNumber_repr {n : Nat} (h : n < Nat.pow 2 64) : IsNumber n.repr := by
  have hdigit : ∀ d ∈ Nat.toDigits 10 n, d.isDigit = true := fun d =>
    Nat.isDigit_of_mem_toDigits (by decide) (by decide)
  have hsign : (Nat.toDigits 10 n).head? ≠ some '-' := by
    intro hhead
    exact absurd (hdigit '-' (List.mem_of_mem_head? hhead)) (by decide)
  have hwhole : Reader.digits? (Reader.unsigned (Nat.toDigits 10 n)) =
      some (Nat.toDigits 10 n, []) := by
    rw [Reader.unsigned, if_neg hsign, Reader.digits?_all Nat.toDigits_ne_nil hdigit]
  have hzero : ¬((Nat.toDigits 10 n).head? = some '0' ∧ (Nat.toDigits 10 n).length ≠ 1) := by
    rintro ⟨hhead, hlength⟩
    by_cases hn : n = 0
    · exact hlength (by rw [hn]; rfl)
    · exact head?_toDigits hn hhead
  refine ⟨⟨false, Nat.toDigits 10 n, [], false, []⟩, ?_, ?_⟩
  · rw [Nat.toList_repr]
    refine Reader.number?_eq_some.2 ⟨_, [], [], [], false, [], hwhole, hzero, rfl, rfl, ?_⟩
    simp [hsign]
  · simp [Reader.NumberText.inRange, Reader.leadingDigits_toDigits h, Reader.leadingDigits,
      natOfDigits, power, Number.mul_one_ne_infinite h]

/-! ### Documents over several lines -/

theorem mem_pushn {c : Char} {n : Nat} (h : c ∈ ("".pushn ' ' n).toList) : c = ' ' := by
  rw [String.pushn_eq_repeat_push] at h
  induction n with
  | zero => exact nomatch h
  | succ n ih =>
    rw [Nat.repeat, String.toList_push, List.mem_append, List.mem_singleton] at h
    exact h.elim ih id

theorem isGap_newline (level : Nat) : IsGap (newline level) := by
  intro c hc
  rw [newline, String.toList_append, List.mem_append] at hc
  rcases hc with hc | hc
  · exact isGap_of_all (s := "\n") rfl c hc
  · rw [mem_pushn hc]
    rfl

theorem prettyItems_eq (level : Nat) (vs : List Json) :
    prettyItems level vs = vs.map (pretty level) := by
  induction vs with
  | nil => rfl
  | cons v vs ih => rw [prettyItems, ih, List.map_cons]

theorem prettyMembers_eq (level : Nat) (ms : List (String × Json)) :
    prettyMembers level ms = ms.map (memberText " " (pretty level)) := by
  induction ms with
  | nil => rfl
  | cons m ms ih =>
    rw [prettyMembers, ih, List.map_cons]
    rfl

/-- A document over several lines spells the document. -/
theorem Readable.spells_pretty {n : Nat} {v : Json} (h : Readable n v) (level : Nat) :
    Spells n (.value v) (v.pretty level).toList := by
  have hspace : IsGap " " := isGap_of_all rfl
  -- at every level, as the parts stand one level deeper
  induction h generalizing level with
  | null => exact .null
  | bool b => cases b with
    | true => exact .true
    | false => exact .false
  | number h => exact .number h
  | string s => exact .string s
  | @array n vs _ ih =>
    rw [pretty, prettyItems_eq]
    cases vs with
    | nil => simpa [block] using @Spells.emptyArray n [] nofun
    | cons v vs =>
      have hitems := spells_items (isGap_newline (level + 1)) (isGap_newline level)
        fun w hw => ih w hw (level + 1)
      simpa [block] using
        Spells.array (spells_behind_gap (isGap_newline (level + 1)) hitems)
  | @object n ms _ ih =>
    rw [pretty, prettyMembers_eq]
    cases ms with
    | nil => simpa [block] using @Spells.emptyObject n [] nofun
    | cons m ms =>
      have hmembers := spells_members hspace (isGap_newline (level + 1)) (isGap_newline level)
        fun k hk => ih k hk (level + 1)
      simpa [block] using
        Spells.object (spells_behind_gap (isGap_newline (level + 1)) hmembers)

/-- A document over several lines is read back, also with space behind it. -/
theorem read?_pretty {v : Json} (h : Readable maxNesting v) (level : Nat) {gap : String}
    (hgap : IsGap gap) : read? (v.pretty level ++ gap) = some v :=
  read?_append_gap (h.spells_pretty level) hgap

end Json

end TemplateVars
