/-
Any number of passes over one text.

The main result is `tokensOf_progress`: the passes go through a text from front to back, each
token but `eof` on a character of its own, and from some pass on there is nothing left to read.

* `Lexer.Within.stops` — a pass ends where its last token does;
* `Consecutive.count_le` — tokens one behind the other are no more than the characters there;
* `exists_finishes` — after some passes that fail, one gets to the end of the text;
* `behind_of_eof` — the passes behind that one stay there.

Design notes: a failure leaves the lexer somewhere in a literal, with the braces that it has read
so far.  None of this matters here: what is shown of one pass is shown for any state at any place
of the text, so it holds of the state that the pass before left.
-/
import Mathlib.Algebra.GroupWithZero.Nat
import Mathlib.Data.Nat.Find
import TemplateVars.Proofs.Token.Tiling

namespace TemplateVars

/-- Whether tokens stand one behind the other between two places of a text, each but `eof` on one
character at least. -/
inductive Consecutive : Nat → List Token → Nat → Prop where
  | nil (p : Nat) : Consecutive p [] p
  | cons {p q : Nat} {t : Token} {ts : List Token} (hstart : p ≤ t.start.offset)
      (hstop : t.start.offset ≤ t.stop) (hchar : t.kind ≠ .eof → t.start.offset < t.stop)
      (h : Consecutive t.stop ts q) : Consecutive p (t :: ts) q

theorem Consecutive.le {p q : Nat} {ts : List Token} (h : Consecutive p ts q) : p ≤ q := by
  induction h with
  | nil => exact Nat.le_refl _
  | cons hstart hstop _ _ ih => exact Nat.le_trans hstart (Nat.le_trans hstop ih)

/-- There are no more tokens than characters, `eof` apart. -/
theorem Consecutive.count_le {p q : Nat} {ts : List Token} (h : Consecutive p ts q) :
    p + ts.countP (·.kind ≠ .eof) ≤ q := by
  induction h with
  | nil => exact Nat.le_refl _
  | @cons p q t ts hstart hstop hchar _ ih =>
    by_cases ht : t.kind = .eof
    · rw [List.countP_cons_of_neg (by simpa using ht)]
      omega
    · rw [List.countP_cons_of_pos (by simpa using ht)]
      have hlt := hchar ht
      omega

/-- A token takes no less than nothing, and none but `eof` takes nothing. -/
theorem Placed.start_le {text : List Char} {behind : Nat} {t : Token} (h : Placed text behind t) :
    t.start.offset ≤ t.stop := by
  by_cases ht : t.kind = .eof
  · obtain ⟨hstart, hstop⟩ := h.eof ht
    rw [hstart, hstop]
  · exact Nat.le_of_lt (h.start_lt ht)

theorem Tiles.consecutive {text : List Char} {behind : Nat} {us : List Token} {t : Token}
    (h : Tiles text behind (us ++ [t])) : Consecutive behind (us ++ [t]) t.stop := by
  induction us generalizing behind with
  | nil => exact .cons h.1.behind_le h.1.start_le h.1.start_lt (.nil _)
  | cons u us ih =>
    cases hus : us ++ [t] with
    | nil => exact absurd hus (by simp)
    | cons v vs =>
      rw [List.cons_append, hus] at h
      obtain ⟨hplaced, -, hrest⟩ := h
      rw [List.cons_append]
      exact .cons hplaced.behind_le hplaced.start_le hplaced.start_lt (ih (hus ▸ hrest))

theorem TokenKind.terminal_cases {k : TokenKind} (h : k.isTerminal = true) (hk : k ≠ .eof) :
    ∃ cause, k = .invalid cause := by
  cases k with
  | invalid cause => exact ⟨cause, rfl⟩
  | eof => exact absurd rfl hk
  | _ => exact nomatch h

namespace Lexer

/-! ### One pass -/

/-- What the tokens of a pass have to do with the state behind it. -/
structure Stops (text : List Char) (ts : List Token) (final : Lexer) : Prop where
  within : final.Within text
  last : ∃ us t, ts = us ++ [t] ∧ t.stop = final.position.offset ∧
    (t.kind = .eof → t.start = final.position ∧ final.rest = [])

theorem Stops.cons {text : List Char} {t : Token} {ts : List Token} {final : Lexer}
    (h : Stops text ts final) : Stops text (t :: ts) final := by
  obtain ⟨us, last, rfl, hlast⟩ := h.last
  exact ⟨h.within, t :: us, last, rfl, hlast⟩

theorem Within.after {text : List Char} {l : Lexer} (h : l.Within text) (kind : TokenKind)
    (access : Bool) : (l.after kind access).Within text :=
  ⟨h.rest, h.offset_le, h.line, h.column⟩

theorem Within.afterFailure {text : List Char} {l : Lexer} (h : l.Within text) (first : Char) :
    (l.afterFailure first).Within text :=
  ⟨h.rest, h.offset_le, h.line, h.column⟩

/-- A pass that starts at a place of a text stops at one, behind its last token. -/
theorem Within.stops {text : List Char} {l : Lexer} (h : l.Within text) (access : Bool) :
    Stops text (l.tokensFrom access).1 (l.tokensFrom access).2 := by
  fun_induction tokensFrom l access with
  | case1 l access start used => exact ⟨h.skip used, [], _, rfl, rfl, fun hkind => by cases hkind⟩
  | case2 l access newline used _ here hrest =>
    exact ⟨h.skip used, [], _, rfl, rfl, fun _ => ⟨rfl, hrest⟩⟩
  | case3 l access newline used _ here first s hrest cause n =>
    have hstopped := ((h.skip used).skip (n + 1)).afterFailure first
    exact ⟨hstopped, [], _, rfl, rfl, fun hkind => by cases hkind⟩
  | case4 l access newline used _ here first s hrest kind n _ next token ts final hnext ih =>
    have hstops := ih (((h.skip used).skip (n + 1)).after kind access)
    rw [hnext] at hstops
    exact hstops.cons

/-- The tokens of a pass stand between the place where it starts and the one where it stops. -/
theorem Within.consecutive {text : List Char} {l : Lexer} (h : l.Within text) :
    Consecutive l.position.offset l.pass.1 l.pass.2.position.offset := by
  obtain ⟨us, t, hlast, hstop, -⟩ := (h.stops false).last
  have htiles := (reads_tokensFrom l false).tiles h
  rw [hlast] at htiles
  show Consecutive _ (l.tokensFrom false).1 (l.tokensFrom false).2.position.offset
  rw [hlast, ← hstop]
  exact htiles.consecutive

/-- A pass at the end of a text. -/
theorem pass_end {l : Lexer} (h : l.rest = []) :
    l.pass = ([⟨.eof, l.position, l.position.offset, false⟩], l) := by
  rw [pass, tokensFrom, h, Gap.scan]
  simp only [skip]
  split
  · rfl
  · next hrest => cases h.symm.trans hrest

/-! ### Many passes -/

/-- The lexer of a text behind some passes. -/
def behind (source : String) : Nat → Lexer
  | 0 => ofText source.toList
  | k + 1 => (behind source k).pass.2

/-- The tokens of one of the passes over a text, the first one being pass zero. -/
def tokensOf (source : String) (k : Nat) : List Token := (behind source k).pass.1

variable (source : String)

theorem behind_within (k : Nat) : (behind source k).Within source.toList := by
  induction k with
  | zero => exact ofText_within _
  | succ k ih => exact (ih.stops false).within

theorem behind_le (k : Nat) : (behind source k).position.offset ≤ source.length :=
  String.length_toList ▸ (behind_within source k).offset_le

theorem tokensOf_init (k : Nat) : ∃ us final, tokensOf source k = us ++ [final] ∧
    (∀ u ∈ us, u.kind.isTerminal = false) ∧ final.kind.isTerminal = true :=
  (reads_tokensFrom (behind source k) false).init

theorem tokensOf_consecutive (k : Nat) : Consecutive (behind source k).position.offset
    (tokensOf source k) (behind source (k + 1)).position.offset :=
  (behind_within source k).consecutive

/-- The tokens of the first passes are no more than the characters they went through. -/
theorem sum_count_le (k : Nat) :
    ((List.range k).map fun i => (tokensOf source i).countP (·.kind ≠ .eof)).sum ≤
      (behind source k).position.offset := by
  induction k with
  | zero => exact Nat.zero_le _
  | succ k ih =>
    rw [List.range_succ, List.map_append, List.sum_append, List.map_singleton, List.sum_singleton]
    exact Nat.le_trans (Nat.add_le_add_right ih _) (tokensOf_consecutive source k).count_le

/-- Whether a pass gets to the end of the text. -/
def Finishes (k : Nat) : Prop := ∃ us t, tokensOf source k = us ++ [t] ∧ t.kind = .eof

variable {source}

/-- A pass that does not get to the end of the text fails. -/
theorem fails_of_not_finishes {k : Nat} (h : ¬Finishes source k) :
    ∃ us t cause, tokensOf source k = us ++ [t] ∧ t.kind = .invalid cause := by
  obtain ⟨us, t, htokens, -, hterminal⟩ := tokensOf_init source k
  obtain ⟨cause, hcause⟩ := TokenKind.terminal_cases hterminal fun hk => h ⟨us, t, htokens, hk⟩
  exact ⟨us, t, cause, htokens, hcause⟩

/-- Each pass that fails takes a character. -/
theorem le_offset_of_fails {k : Nat} (h : ∀ i < k, ¬Finishes source i) :
    k ≤ (behind source k).position.offset := by
  induction k with
  | zero => exact Nat.zero_le _
  | succ k ih =>
    have hk := ih fun i hi => h i (Nat.lt_succ_of_lt hi)
    obtain ⟨us, t, cause, htokens, hcause⟩ := fails_of_not_finishes (h k (Nat.lt_succ_self k))
    have hcount := (tokensOf_consecutive source k).count_le
    have hpos : 0 < (tokensOf source k).countP (·.kind ≠ .eof) := by
      rw [List.countP_pos_iff, htokens]
      exact ⟨t, by simp, by simp [hcause]⟩
    omega

/-- Where no pass before got to the end of the text, as many passes as there are characters have
read all of it. -/
theorem rest_of_fails {k : Nat} (h : ∀ i < k, ¬Finishes source i) (hk : source.length ≤ k) :
    (behind source k).rest = [] := by
  have hle : source.toList.length ≤ (behind source k).position.offset :=
    String.length_toList ▸ Nat.le_trans hk (le_offset_of_fails h)
  rw [(behind_within source k).rest, List.drop_eq_nil_of_le hle]

/-- A pass that gets to the end of the text stays there, and so do all later ones. -/
theorem behind_of_eof {k : Nat} {us : List Token} {last : Token}
    (htokens : tokensOf source k = us ++ [last]) (hlast : last.kind = .eof) (d : Nat) :
    tokensOf source (k + 1 + d) = [⟨.eof, last.start, last.start.offset, false⟩] := by
  obtain ⟨us', t, hstops, -, hend⟩ := ((behind_within source k).stops false).last
  obtain rfl : last = t := by
    have hsame : us ++ [last] = us' ++ [t] := htokens.symm.trans hstops
    exact (List.append_inj' hsame rfl).2 |> List.singleton_inj.1
  have hstart : last.start = (behind source (k + 1)).position := (hend hlast).1
  have hrest : (behind source (k + 1)).rest = [] := (hend hlast).2
  have hstays : behind source (k + 1 + d) = behind source (k + 1) := by
    induction d with
    | zero => rfl
    | succ d ih =>
      show (behind source (k + 1 + d)).pass.2 = _
      rw [ih, pass_end hrest]
  rw [tokensOf, hstays, pass_end hrest, hstart]

variable (source)

/-- One of the passes gets to the end of the text, with no more before it than characters. -/
theorem exists_finishes : ∃ m ≤ source.length, Finishes source m ∧ ∀ i < m, ¬Finishes source i := by
  have hfinishes : ∃ k, Finishes source k := by
    by_contra hnone
    have hle := le_offset_of_fails (k := source.length + 1) fun i _ => not_exists.1 hnone i
    exact absurd (Nat.le_trans hle (behind_le source _)) (Nat.not_succ_le_self _)
  classical
  have hfails : ∀ i < Nat.find hfinishes, ¬Finishes source i := fun i => Nat.find_min hfinishes
  have hle := Nat.le_trans (le_offset_of_fails hfails) (behind_le source _)
  exact ⟨_, hle, Nat.find_spec hfinishes, hfails⟩

/-- Each pass over a text ends in its only terminal token; its tokens stand one behind the other,
each but `eof` on some characters, from where the pass before stopped to where this one does, which
is within the text; and after some passes that fail, one gets to the end of the text, behind which
each pass reads `eof` there and nothing else, as does each one behind as many passes as there are
characters. -/
theorem tokensOf_progress :
    (∀ k, ∃ us final, tokensOf source k = us ++ [final] ∧
      (∀ u ∈ us, u.kind.isTerminal = false) ∧ final.kind.isTerminal = true) ∧
    (∀ k, (behind source k).position.offset ≤ (behind source (k + 1)).position.offset ∧
      (behind source k).position.offset ≤ source.length ∧
      (behind source k).rest = source.toList.drop (behind source k).position.offset ∧
      Consecutive (behind source k).position.offset (tokensOf source k)
        (behind source (k + 1)).position.offset) ∧
    (∀ k, ((List.range k).map fun i => (tokensOf source i).countP (·.kind ≠ .eof)).sum ≤
      source.length) ∧
    ∃ m ≤ source.length,
      (∀ k < m, ∃ us t cause, tokensOf source k = us ++ [t] ∧ t.kind = .invalid cause) ∧
      ∃ us last, tokensOf source m = us ++ [last] ∧ last.kind = .eof ∧
        ∀ k, m < k ∨ source.length ≤ k → ∃ t, tokensOf source k = [t] ∧ t.kind = .eof ∧
          t.start.line = last.start.line ∧ t.start.column = last.start.column := by
  refine ⟨tokensOf_init source, fun k => ?_,
    fun k => Nat.le_trans (sum_count_le source k) (behind_le source k), ?_⟩
  · have hconsecutive := tokensOf_consecutive source k
    exact ⟨hconsecutive.le, behind_le source k, (behind_within source k).rest, hconsecutive⟩
  obtain ⟨m, hm, ⟨us, last, htokens, hlast⟩, hfails⟩ := exists_finishes source
  refine ⟨m, hm, fun k hk => fails_of_not_finishes (hfails k hk),
    us, last, htokens, hlast, fun k hk => ?_⟩
  by_cases hlt : m < k
  · obtain ⟨d, rfl⟩ := Nat.exists_eq_add_of_le (Nat.succ_le_of_lt hlt)
    exact ⟨_, behind_of_eof htokens hlast d, rfl, rfl, rfl⟩
  · -- all passes before fail, and they are as many as there are characters
    have hfull := hk.resolve_left hlt
    obtain rfl : k = m := Nat.le_antisymm (Nat.le_of_not_lt hlt) (Nat.le_trans hm hfull)
    have hend : tokensOf source k = [_] :=
      congrArg Prod.fst (pass_end (rest_of_fails hfails hfull))
    have hsingle := List.append_eq_singleton_iff.1 (htokens.symm.trans hend)
    obtain ⟨rfl, -⟩ := hsingle.resolve_right fun h => nomatch h.2
    exact ⟨last, htokens, hlast, rfl, rfl⟩

end Lexer

end TemplateVars
