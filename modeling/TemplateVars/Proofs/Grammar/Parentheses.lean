/-
Redundant parentheses.

The main result is `complete_parentheses`: an expression in any number of parentheses is the
same expression, at the price of as many levels.

* `Opens` — a reader takes some number of levels, not one more or less;
* `Opens.group` — a group takes one more than what is inside;
* `ReadInside.opens` — so any number of groups, one around the other, takes as many more.

Design notes: how many levels an expression takes is not computed.  It takes some, since it
is read from the start and not at the limit; and it takes the same in front of every
parenthesis, whatever follows, as the rules are local.  At the end of a text it could take
other ones, but there it is only asked whether it is read.
-/
import Mathlib.Data.Nat.Find
import TemplateVars.Proofs.Grammar.Links
import TemplateVars.Proofs.Grammar.Seam

namespace TemplateVars

open Takes (Anywhere)

/-! ### The levels that a reader opens -/

/-- Whether a reader reads a value from tokens and leaves others, and opens `k` levels for
it. -/
structure Opens {α : Type} (k : Nat) (p : Parse α) (ts : List Token) (a : α)
    (after : List Token) : Prop where
  reads : Reads k p ts a after
  fits {d : Nat} {b : α} {t : Stream} (h : p ⟨ts, d⟩ = .ok b t) : d + k ≤ maxDepth

namespace Opens

variable {α : Type} {k : Nat} {p : Parse α} {ts after : List Token} {a : α}

/-- It succeeds just if the levels are there. -/
theorem ok_iff (h : Opens k p ts a after) (d : Nat) :
    p ⟨ts, d⟩ = .ok a ⟨after, d⟩ ↔ d + k ≤ maxDepth := by
  refine ⟨h.fits, fun hk => ?_⟩
  rcases h.reads d with hok | ⟨hdeep, -⟩
  · exact hok
  · omega

/-- What is read from the start, and not at the limit, opens some number of levels. -/
theorem of_limit (h : LimitOnly p) (hrun : p ⟨ts, 0⟩ = .ok a ⟨after, 0⟩)
    (hlimit : ∀ d b t, p ⟨ts, d⟩ = .ok b t → d < maxDepth) :
    ∃ k, 1 ≤ k ∧ k ≤ maxDepth ∧ Opens k p ts a after := by
  -- the most levels that may be open already
  classical
  let m := Nat.findGreatest (fun d => p ⟨ts, d⟩ = .ok a ⟨after, d⟩) maxDepth
  have hm : p ⟨ts, m⟩ = .ok a ⟨after, m⟩ :=
    Nat.findGreatest_spec (P := fun d => p ⟨ts, d⟩ = .ok a ⟨after, d⟩) (Nat.zero_le _) hrun
  have hlt := hlimit m a _ hm
  refine ⟨maxDepth - m, by omega, by omega, h.reads (Nat.le_of_lt hlt) hm, fun {d b t} hd => ?_⟩
  have hok : p ⟨ts, d⟩ = .ok a ⟨after, d⟩ := by
    rcases h.reads (Nat.zero_le _) hrun d with hok | ⟨-, e, s, herror, -⟩
    · exact hok
    · exact nomatch hd.symm.trans herror
  have hle : d ≤ m := Nat.le_findGreatest (Nat.le_of_lt (hlimit d b t hd)) hok
  omega

/-- In front of a parenthesis that closes, the levels are the same whatever is behind it. -/
theorem of_seam {S : Seam} (hlocal : S.Local Anywhere p) (hswap : S.swap.Local Anywhere p)
    (hlimit : LimitOnly p) {us : List Token} (hk : k ≤ maxDepth)
    (h : Opens k p (S.one us) a S.first) : Opens k p (S.two us) a S.second := by
  have hone : p ⟨S.one us, maxDepth - k⟩ = .ok a ⟨S.one [], maxDepth - k⟩ :=
    (h.ok_iff _).2 (by omega)
  have htwo : p ⟨S.two us, maxDepth - k⟩ = .ok a ⟨S.second, maxDepth - k⟩ :=
    hlocal.before trivial hone
  have hreads := hlimit.reads (Nat.sub_le maxDepth k) htwo
  rw [Nat.sub_sub_self hk] at hreads
  refine ⟨hreads, fun {d b t} hd => ?_⟩
  rcases hreads d with hok | ⟨-, e, s, herror, -⟩
  · have hback : p ⟨S.two us, d⟩ = .ok a ⟨S.two [], d⟩ := hok
    exact h.fits (hswap.before trivial hback)
  · exact nomatch hd.symm.trans herror

end Opens

open Grammar (grammar)

section

variable {ts us after : List Token} {d : Nat} {e : Expr} {s : Stream}

/-- An expression is read a level deeper. -/
theorem sequence_ok (h : grammar.sequence ⟨ts, d⟩ = .ok e s) :
    d < maxDepth ∧ ∃ a t, grammar.exponent ⟨ts, d + 1⟩ = .ok a t := by
  rw [← grammar_step] at h
  obtain ⟨first, t, h, -⟩ := Parse.bind_ok.1 h
  rw [← grammar_step] at h
  obtain ⟨hd, u, h, -⟩ := Parse.nested_ok.1 h
  obtain ⟨target, v, h, -⟩ := Parse.bind_ok.1 h
  rw [← grammar_step] at h
  obtain ⟨test, w, h, -⟩ := Parse.bind_ok.1 h
  rw [← grammar_step] at h
  obtain ⟨a, t, h, -⟩ := Parse.bind_ok.1 h
  exact ⟨hd, a, t, h⟩

/-- What begins with a primary expression has read that. -/
theorem exponent_ok (hts : StartsPrimary (headKind ts)) (h : grammar.exponent ⟨ts, d⟩ = .ok e s) :
    ∃ a t, grammar.primary ⟨ts, d⟩ = .ok a t := by
  rw [← grammar_step] at h
  obtain ⟨base, t, h, -⟩ := Parse.bind_ok.1 h
  rw [← grammar_step] at h
  obtain ⟨k, u, hk, h⟩ := Parse.bind_ok.1 h
  obtain ⟨rfl, rfl⟩ := EStateM.Result.ok.inj hk
  have hkind : (Stream.mk ts d).current.kind = headKind ts := rfl
  simp only [hkind, hts.unary, hts.update] at h
  obtain ⟨operand, v, h, -⟩ := Parse.bind_ok.1 h
  rw [← grammar_step] at h
  obtain ⟨k, u, hk, h⟩ := Parse.bind_ok.1 h
  obtain ⟨rfl, rfl⟩ := EStateM.Result.ok.inj hk
  simp only [hkind, hts.not_new] at h
  obtain ⟨a, t, h, -⟩ := Parse.bind_ok.1 h
  exact ⟨a, t, h⟩

/-- A group without an arrow behind it has read what is inside. -/
theorem primary_group_ok {o : Token} (ho : o.kind = .punct .leftParen)
    (harrow : arrowFollows (o :: ts) = false) (h : grammar.primary ⟨o :: ts, d⟩ = .ok e s) :
    ∃ a t, grammar.sequence ⟨ts, d⟩ = .ok a t := by
  rw [← grammar_step] at h
  obtain ⟨k, u, hk, h⟩ := Parse.bind_ok.1 h
  obtain ⟨rfl, rfl⟩ := EStateM.Result.ok.inj hk
  have hkind : (Stream.mk (o :: ts) d).current.kind = .punct .leftParen := ho
  simp only [hkind] at h
  rw [← grammar_step] at h
  obtain ⟨k, u, hk, h⟩ := Parse.bind_ok.1 h
  obtain ⟨rfl, rfl⟩ := EStateM.Result.ok.inj hk
  simp only [harrow] at h
  obtain ⟨_, u, hadvance, h⟩ := Parse.bind_ok.1 h
  obtain ⟨-, rfl⟩ := EStateM.Result.ok.inj hadvance
  rw [advance_cons (by rw [ho]; rfl)] at h
  obtain ⟨a, t, h, -⟩ := Parse.bind_ok.1 h
  exact ⟨a, t, h⟩

/-- Parentheses around an expression open one more level. -/
theorem Opens.group {k : Nat} {o c : Token} (ho : o.kind = .punct .leftParen)
    (hc : c.kind = .punct .rightParen) (harrow : arrowFollows (o :: (us ++ c :: after)) = false)
    (hafter : bindingRank (headKind after) = 0)
    (h : Opens k grammar.sequence (us ++ c :: after) e (c :: after)) :
    Opens (k + 1) grammar.sequence (o :: (us ++ c :: after)) e after := by
  have hstart : StartsPrimary (headKind (o :: (us ++ c :: after))) := by
    rw [headKind_cons, ho]
    exact startsPrimary_leftParen
  refine ⟨?_, fun {d b t} hd => ?_⟩
  · have hprimary := Reads.group ho hc harrow h.reads
    exact ((hprimary.operand hstart.not_new (by omega)).unary hstart.toStartsOperand
      (by omega)).sequence_of_unary hstart.valid hafter
  · -- the run has gone through the expression inside, at the next level
    obtain ⟨-, a, s, hexponent⟩ := sequence_ok hd
    obtain ⟨a, s, hprimary⟩ := exponent_ok hstart hexponent
    obtain ⟨a, s, hinner⟩ := primary_group_ok ho harrow hprimary
    have := h.fits hinner
    omega

/-- Whether tokens in parentheses are read as an expression for which `k` levels are opened,
whatever follows the parenthesis that closes. -/
def ReadInside (k : Nat) (us : List Token) (e : Expr) : Prop :=
  ∀ c more, c.kind = .punct .rightParen → (∀ t ∈ more, t.kind ≠ .punct .arrow) →
    Opens k grammar.sequence (us ++ c :: more) e (c :: more)

/-- What is an expression at the end of a text is one in parentheses. -/
theorem readInside_of_end {last : Token} (hlast : last.kind = .eof)
    (hnested : Nested brackets (kinds us))
    (hrun : grammar.sequence ⟨us ++ [last], 0⟩ = .ok e ⟨[last], 0⟩) :
    ∃ k, 1 ≤ k ∧ k ≤ maxDepth ∧ ReadInside k us e := by
  have hlimit : LimitOnly grammar.sequence := rules_limit_only _ .sequence
  have hclosed : ∀ c more, c.kind = .punct .rightParen →
      grammar.sequence ⟨us ++ c :: more, 0⟩ = .ok e ⟨c :: more, 0⟩ := by
    intro c more hc
    have hseparates : c.kind.Separates := .of_mark hc (by decide)
    have hfits : FitsBefore (c :: more) grammar.sequence 0 us e :=
      .of_nested (rules_write _).sequence hseparates hlast hrun hnested
    have hreads := hfits.sequence hseparates (by rw [hc]; decide) (Nat.zero_le _)
    rcases hreads 0 with hok | ⟨hdeep, -⟩
    · exact hok
    · exact absurd hdeep (by decide)
  -- the levels are those in front of one parenthesis and nothing else
  let single : Token := .bare (.punct .rightParen)
  obtain ⟨k, hone, hk, hopens⟩ := Opens.of_limit hlimit (hclosed single [] rfl) fun d b t h =>
    (sequence_ok h).1
  refine ⟨k, hone, hk, fun c more hc hmore => ?_⟩
  let S : Seam :=
    { first := [single]
      second := c :: more
      first_closing := rfl
      second_closing := hc
      first_free := by simp [single]
      second_free := List.forall_mem_cons.2 ⟨by rw [hc]; exact nofun, hmore⟩ }
  have hlocal : S.Local Anywhere grammar.sequence := S.rules_local _ .sequence
  exact hopens.of_seam hlocal (S.swap.rules_local _ .sequence) hlimit hk

theorem ReadInside.group {k : Nat} {o c : Token} (h : ReadInside k us e) (hbalanced : Balanced us)
    (ho : o.kind = .punct .leftParen) (hc : c.kind = .punct .rightParen)
    (hafter : bindingRank (headKind after) = 0) (hfree : ∀ t ∈ after, t.kind ≠ .punct .arrow) :
    Opens (k + 1) grammar.sequence (o :: (us ++ c :: after)) e after := by
  have harrow : arrowFollows (o :: (us ++ c :: after)) = false :=
    (arrowFollows_enclosed hbalanced ho hc after).trans (Seam.arrowNext_of_free hfree)
  exact .group ho hc harrow hafter (h c after hc hfree)

/-- Any number of parentheses around an expression open as many levels more. -/
theorem ReadInside.opens {k n : Nat} {last : Token} {opens closes : List Token}
    (h : ReadInside k us e) (hbalanced : Balanced us) (hlast : last.kind = .eof)
    (hopens : kinds opens = List.replicate (n + 1) (.punct .leftParen))
    (hcloses : kinds closes = List.replicate (n + 1) (.punct .rightParen)) :
    Opens (k + (n + 1)) grammar.sequence (opens ++ us ++ closes ++ [last]) e [last] := by
  -- from the innermost parentheses out
  induction n generalizing us k opens closes with
  | zero =>
    obtain ⟨o, os, rfl, ho, hos⟩ := List.map_eq_cons_iff.1 hopens
    obtain ⟨c, cs, rfl, hc, hcs⟩ := List.map_eq_cons_iff.1 hcloses
    obtain rfl := List.map_eq_nil_iff.1 hos
    obtain rfl := List.map_eq_nil_iff.1 hcs
    have hfree : ∀ t ∈ [last], t.kind ≠ .punct .arrow := by simp [hlast]
    have hgroup := h.group hbalanced ho hc (bindingRank_end hlast) hfree
    simpa using hgroup
  | succ n ih =>
    rw [List.replicate_succ'] at hopens
    obtain ⟨os, single, rfl, hos, hsingle⟩ := List.map_eq_append_iff.1 hopens
    obtain ⟨o, nothing, rfl, ho, hnothing⟩ := List.map_eq_cons_iff.1 hsingle
    obtain rfl := List.map_eq_nil_iff.1 hnothing
    obtain ⟨c, cs, rfl, hc, hcs⟩ := List.map_eq_cons_iff.1 hcloses
    have hinside : ReadInside (k + 1) (o :: (us ++ [c])) e := by
      intro c' more hc' hmore
      have hrank : bindingRank (headKind (c' :: more)) = 0 := by
        rw [headKind_cons, hc']
        rfl
      have hgroup := h.group hbalanced ho hc hrank
        (List.forall_mem_cons.2 ⟨by rw [hc']; exact nofun, hmore⟩)
      simpa using hgroup
    have hmore := ih hinside (hbalanced.enclosed (by rw [ho]; rfl) (by rw [hc]; rfl)
      (by rw [hc]; rfl)) hos hcs
    have hlevels : k + (n + 1 + 1) = k + 1 + (n + 1) := by omega
    rw [hlevels]
    simpa using hmore

/-- What the levels of a sequence say of a whole text. -/
theorem Opens.complete {k : Nat} {last : Token} (hlast : last.kind = .eof)
    (h : Opens k grammar.sequence ts e [last]) :
    (k ≤ maxDepth → (Parse.complete.run { rest := ts }).1 = .ok e) ∧
    (maxDepth < k → ∃ error, (Parse.complete.run { rest := ts }).1 = .error error ∧
      error.cause = .tooDeep) := by
  have hreads := h.reads.complete hlast 0
  refine ⟨fun hk => ?_, fun hk => ?_⟩
  · rcases hreads with hok | ⟨hdeep, -⟩
    · rw [Parse.run_ok_iff.2 hok]
    · omega
  · rcases hreads with hok | ⟨-, error, s, herror, hcause⟩
    · -- the sequence would have been read from the start
      obtain ⟨a, t, hexpression, -⟩ := Parse.bind_ok.1 hok
      obtain ⟨a, t, hsequence, -⟩ := Parse.bind_ok.1 hexpression
      have := h.fits hsequence
      omega
    · exact ⟨error, by rw [Parse.run_error_iff.2 herror], hcause⟩

end

theorem Nested.live {us : List Token} (h : Nested brackets (kinds us)) : Live us := by
  have hkinds : ∀ ks, Nested brackets ks → ∀ k ∈ ks, k.isTerminal = false := by
    intro ks h
    induction h with
    | nil => exact fun k hk => nomatch hk
    | plain hk _ ih => exact List.forall_mem_cons.2 ⟨hk.1, ih⟩
    | group _ _ _ ihinner ih =>
      refine List.forall_mem_cons.2 ⟨rfl, List.forall_mem_append.2 ⟨ihinner, ?_⟩⟩
      exact List.forall_mem_cons.2 ⟨rfl, ih⟩
  exact fun t ht => hkinds _ h t.kind (List.mem_map_of_mem ht)

/-- An expression is a sequence with no `invalid` token behind it. -/
theorem expression_ok {s t : Stream} {e : Expr} (h : Parse.expression s = .ok e t) :
    grammar.sequence s = .ok e t := by
  obtain ⟨a, u, hsequence, h⟩ := Parse.bind_ok.1 h
  obtain ⟨k, v, hk, h⟩ := Parse.bind_ok.1 h
  obtain ⟨-, rfl⟩ := EStateM.Result.ok.inj hk
  cases k with
  | invalid error => exact nomatch h
  | _ =>
    obtain ⟨rfl, rfl⟩ := EStateM.Result.ok.inj h
    exact hsequence

/-- Redundant parentheses change nothing and cost one level each.  For every expression there
is a number of levels that it takes; in any number of parentheses it is read as it is without
them if there are as many levels besides, and fails for its depth if not. -/
theorem complete_parentheses {us : List Token} {last : Token} {e : Expr}
    (hlast : last.kind = .eof) (hnested : Nested brackets (kinds us))
    (hrun : (Parse.complete.run { rest := us ++ [last] }).1 = .ok e) :
    ∃ d, 1 ≤ d ∧ d ≤ maxDepth ∧ ∀ n opens closes,
      kinds opens = List.replicate n (.punct .leftParen) →
      kinds closes = List.replicate n (.punct .rightParen) →
      (n + d ≤ maxDepth →
        (Parse.complete.run { rest := opens ++ us ++ closes ++ [last] }).1 = .ok e) ∧
      (maxDepth < n + d → ∃ error,
        (Parse.complete.run { rest := opens ++ us ++ closes ++ [last] }).1 = .error error ∧
          error.cause.message = "Expression nested too deeply") := by
  obtain ⟨-, ⟨rest, depth⟩, hexpression, rfl⟩ :=
    complete_end hnested.live (by rw [hlast]; rfl) hrun
  have hsequence := expression_ok hexpression
  have hread : grammar.sequence ⟨us ++ [last], 0⟩ = .ok e ⟨[last], 0⟩ := by
    cases rules_limit_only _ .sequence (us ++ [last]) 0 0 (Nat.le_refl 0) with
    | ok a rest fewer more =>
      cases hsequence.symm.trans fewer
      exact hsequence
    | error error rest fewer more => exact nomatch hsequence.symm.trans fewer
    | tooDeep error s cause more => exact nomatch hsequence.symm.trans more
  obtain ⟨d, hone, hd, hinside⟩ := readInside_of_end hlast hnested hread
  refine ⟨d, hone, hd, fun n opens closes hopens hcloses => ?_⟩
  cases n with
  | zero =>
    obtain rfl := List.map_eq_nil_iff.1 hopens
    obtain rfl := List.map_eq_nil_iff.1 hcloses
    refine ⟨fun _ => ?_, fun hdeep => absurd hdeep (by omega)⟩
    simpa using hrun
  | succ n =>
    have hlevels : n + 1 + d = d + (n + 1) := Nat.add_comm _ _
    obtain ⟨hok, herror⟩ :=
      (hinside.opens hnested.balanced hlast hopens hcloses).complete hlast
    rw [hlevels]
    refine ⟨hok, fun hdeep => ?_⟩
    obtain ⟨error, hfails, hcause⟩ := herror hdeep
    exact ⟨error, hfails, by rw [hcause]; rfl⟩

/-- The member of an object, whose own brackets open another level. -/
theorem complete_parentheses_member :
    let us : List Token := [.bare (.identifier "a"), .bare (.punct .leftBracket),
      .bare (.identifier "b"), .bare (.punct .rightBracket)]
    let e : Expr := .member (.identifier "a") (.computed (.identifier "b")) false
    Nested brackets (kinds us) ∧
    (Parse.complete.run { rest := us ++ [.bare .eof] }).1 = .ok e ∧
    ∃ d, 1 ≤ d ∧ d ≤ maxDepth ∧ ∀ n opens closes,
      kinds opens = List.replicate n (.punct .leftParen) →
      kinds closes = List.replicate n (.punct .rightParen) →
      (n + d ≤ maxDepth →
        (Parse.complete.run { rest := opens ++ us ++ closes ++ [.bare .eof] }).1 = .ok e) ∧
      (maxDepth < n + d → ∃ error,
        (Parse.complete.run { rest := opens ++ us ++ closes ++ [.bare .eof] }).1 =
            .error error ∧
          error.cause.message = "Expression nested too deeply") := by
  intro us e
  have hinner : Nested brackets [.identifier "b"] := .plain (by decide) .nil
  have hnested : Nested brackets (kinds us) :=
    .plain (by decide) (.group (by decide) hinner .nil)
  have hrun : (Parse.complete.run { rest := us ++ [.bare .eof] }).1 = .ok e := by
    with_unfolding_all rfl
  exact ⟨hnested, hrun, complete_parentheses rfl hnested hrun⟩

end TemplateVars
