/-
What a reader makes of the tokens that it takes.

`Takes A p Q` says of a reader `p`, started at tokens of which `A` holds: the tokens
that it takes are never terminal; if it returns `a`, then `Q a` holds of the kinds
of the tokens taken; if it fails, it does so at the token where it stopped.  There
is one rule for each way to put readers together:

* `Takes.bind` — one reader after the other, the tokens taken by both;
* `Takes.collect`, `Takes.chain` — repetition, by what a round adds;
* `Takes.skipBlock` — a block of statements, whose braces are nested.

Design notes: where the first of two readers takes nothing, what was known of the
tokens ahead is still known, which is why `Takes.bind` hands `A` on.
-/
import TemplateVars.Proofs.Grammar.Derivation

namespace TemplateVars

/-- Whether none of some tokens is terminal. -/
def Live (ts : List Token) : Prop := ∀ t ∈ ts, t.kind.isTerminal = false

namespace Live

variable {t : Token} {ts us : List Token}

theorem nil : Live [] := nofun

theorem append (hts : Live ts) (hus : Live us) : Live (ts ++ us) := by
  intro t ht
  rcases List.mem_append.1 ht with ht | ht
  · exact hts t ht
  · exact hus t ht

theorem cons (ht : t.kind.isTerminal = false) (hts : Live ts) : Live (t :: ts) :=
  List.forall_mem_cons.2 ⟨ht, hts⟩

end Live

/-- A reader started where `A` holds takes tokens that are not terminal, of whose
kinds `Q` holds when it succeeds, and fails only at the token where it stops. -/
def Takes {α : Type} (A : List Token → Prop) (p : Parse α) (Q : α → List TokenKind → Prop) :
    Prop :=
  ∀ s : Stream, A s.rest → match p s with
    | .ok a t => ∃ taken, s.rest = taken ++ t.rest ∧ Live taken ∧ Q a (kinds taken)
    | .error e t => ∃ taken cause, s.rest = taken ++ t.rest ∧ Live taken ∧ e = t.errorHere cause

/-- What `Takes` says of the end of a run that has begun at some tokens. -/
def Took {α : Type} (ts : List Token) (Q : α → List TokenKind → Prop) :
    EStateM.Result ParseError Stream α → Prop
  | .ok a t => ∃ taken, ts = taken ++ t.rest ∧ Live taken ∧ Q a (kinds taken)
  | .error e t => ∃ taken cause, ts = taken ++ t.rest ∧ Live taken ∧ e = t.errorHere cause

/-- The tokens taken before and those taken by the run, one after the other. -/
theorem Took.behind {α : Type} {Q : α → List TokenKind → Prop} {first ts : List Token}
    {r : EStateM.Result ParseError Stream α} (hlive : Live first)
    (h : Took ts (fun a ks => Q a (kinds first ++ ks)) r) : Took (first ++ ts) Q r := by
  cases r with
  | ok a t =>
    obtain ⟨taken, rfl, hlive', hq⟩ := h
    exact ⟨first ++ taken, (List.append_assoc ..).symm, hlive.append hlive', kinds_append .. ▸ hq⟩
  | error e t =>
    obtain ⟨taken, cause, rfl, hlive', herror⟩ := h
    exact ⟨first ++ taken, cause, (List.append_assoc ..).symm, hlive.append hlive', herror⟩

namespace Takes

/-- A place of which nothing is known. -/
def Anywhere : List Token → Prop := fun _ => True

/-- A place in front of a token of some kind. -/
def At (k : TokenKind) : List Token → Prop := fun ts => headKind ts = k

variable {α β : Type} {A A' : List Token → Prop} {p : Parse α}
  {Q Q' : α → List TokenKind → Prop} {R : β → List TokenKind → Prop}

theorem mono (h : Takes A p Q) (hA : ∀ ts, A' ts → A ts) (hQ : ∀ a ks, Q a ks → Q' a ks) :
    Takes A' p Q' := by
  intro s hs
  have hp := h s (hA _ hs)
  cases hps : p s with
  | ok a t =>
    rw [hps] at hp
    obtain ⟨taken, hrest, hlive, hq⟩ := hp
    exact ⟨taken, hrest, hlive, hQ a _ hq⟩
  | error e t => rw [hps] at hp; exact hp

theorem weaken (h : Takes A p Q) (hA : ∀ ts, A' ts → A ts) : Takes A' p Q :=
  h.mono hA fun _ _ h => h

/-- A reader that may start anywhere may start at any place. -/
theorem anywhere (h : Takes Anywhere p Q) : Takes A p Q := h.weaken fun _ _ => trivial

theorem run_ok (h : Takes A p Q) {s t : Stream} {a : α} (hs : A s.rest)
    (hrun : p.run s = (.ok a, t)) :
    ∃ taken, s.rest = taken ++ t.rest ∧ Live taken ∧ Q a (kinds taken) := by
  have hp := h s hs
  rw [Parse.run_ok_iff.1 hrun] at hp
  exact hp

/-- What is shown for the tokens at each place. -/
theorem each (h : ∀ ts, A ts → Takes (· = ts) p Q) : Takes A p Q :=
  fun s hs => h s.rest hs s rfl

/-- A reader that takes nothing. -/
theorem of_same {q : Stream → α} (hp : ∀ s, p s = .ok (q s) s)
    (hQ : ∀ s : Stream, A s.rest → Q (q s) []) : Takes A p Q := by
  intro s hs
  rw [hp s]
  exact ⟨[], rfl, .nil, hQ s hs⟩

theorem pure {a : α} (h : Q a []) : Takes A (Pure.pure a) Q := of_same (fun _ => rfl) fun _ _ => h

theorem fail {cause : SyntaxError} : Takes A (Parse.fail cause : Parse α) Q :=
  fun _ _ => ⟨[], cause, rfl, .nil, rfl⟩

/-- What was known of the tokens ahead is known of those taken and those behind. -/
theorem bind {f : α → Parse β} (hp : Takes A p Q)
    (hf : ∀ a ks, Q a ks → Takes (fun us => ∃ taken, kinds taken = ks ∧ A (taken ++ us)) (f a)
      fun b ks' => R b (ks ++ ks')) :
    Takes A (p >>= f) R := by
  intro s hs
  have h := hp s hs
  show Took s.rest R ((p >>= f) s)
  cases hps : p s with
  | error e t =>
    rw [hps] at h
    rw [Parse.bind_of_error hps]
    exact h
  | ok a t =>
    rw [hps] at h
    obtain ⟨first, hfirst, hlive, hq⟩ := h
    rw [Parse.bind_of_ok hps, hfirst]
    exact .behind hlive (hf a _ hq t ⟨first, rfl, hfirst ▸ hs⟩)

/-- One reader after another that may start anywhere. -/
theorem andThen {f : α → Parse β} (hp : Takes A p Q)
    (hf : ∀ a ks, Q a ks → Takes Anywhere (f a) fun b ks' => R b (ks ++ ks')) :
    Takes A (p >>= f) R :=
  hp.bind fun a ks hq => (hf a ks hq).anywhere

theorem ite {c : Prop} [Decidable c] {q : Parse α} (hp : c → Takes A p Q)
    (hq : ¬c → Takes A q Q) : Takes A (if c then p else q) Q := by
  by_cases hc : c
  · rw [if_pos hc]; exact hp hc
  · rw [if_neg hc]; exact hq hc

/-! ### Looking at tokens -/

theorem kind_bind {f : TokenKind → Parse β}
    (h : ∀ k, Takes (fun ts => A ts ∧ At k ts) (f k) R) : Takes A (Parse.kind >>= f) R :=
  fun s hs => h s.current.kind s ⟨hs, rfl⟩

theorem ahead_bind {n : Nat} {f : Token → Parse β}
    (h : ∀ t, Takes (fun ts => A ts ∧ (Stream.mk ts 0).ahead n = t) (f t) R) :
    Takes A (Parse.ahead n >>= f) R :=
  fun s hs => h (s.ahead n) s ⟨hs, rfl⟩

theorem get_bind {f : Stream → Parse β}
    (h : ∀ u : Stream, Takes (fun ts => A ts ∧ ts = u.rest) (f u) R) :
    Takes A (MonadState.get >>= f) R :=
  fun s hs => h s s ⟨hs, rfl⟩

theorem check_bind {m : Punctuator} {f : Bool → Parse β}
    (hyes : Takes (fun ts => A ts ∧ At (.punct m) ts) (f true) R)
    (hno : Takes (fun ts => A ts ∧ headKind ts ≠ .punct m) (f false) R) :
    Takes A (Parse.check m >>= f) R := by
  intro s hs
  by_cases h : s.current.kind = .punct m
  · have := hyes s ⟨hs, h⟩
    rw [← decide_eq_true h] at this
    exact this
  · have := hno s ⟨hs, h⟩
    rw [← decide_eq_false h] at this
    exact this

/-! ### Taking tokens -/

theorem advance_live {s : Stream} (h : s.current.kind.isTerminal = false) :
    ∃ t, s.rest = t :: s.advance.rest ∧ t.kind = s.current.kind := by
  obtain ⟨rest, depth⟩ := s
  cases rest with
  | nil => exact nomatch h
  | cons t rest =>
    refine ⟨t, ?_, rfl⟩
    have hadvance : (Stream.advance ⟨t :: rest, depth⟩).rest = rest := by
      rw [advance_rest]
      exact dropToken_cons rest h
    rw [hadvance]

/-- A token whose kind is known is taken, unless it is terminal.  What was known of
the tokens behind it is known of the tokens ahead. -/
theorem advance_then {k : TokenKind} {B : List Token → Prop} {f : Unit → Parse β}
    (hk : k.isTerminal = false) (hA : ∀ ts, A ts → At k ts) (hB : ∀ t ts, A (t :: ts) → B ts)
    (hf : Takes B (f ()) fun b ks => R b (k :: ks)) : Takes A (Parse.advance >>= f) R := by
  intro s hs
  have hcurrent : s.current.kind = k := hA _ hs
  obtain ⟨t, hrest, ht⟩ := advance_live (s := s) (by rw [hcurrent]; exact hk)
  have hlive : t.kind.isTerminal = false := by rw [ht, hcurrent]; exact hk
  have h : Took s.advance.rest (fun b ks => R b (k :: ks)) (f () s.advance) :=
    hf s.advance (hB t _ (hrest ▸ hs))
  rw [← hcurrent, ← ht] at h
  have hall : Took ([t] ++ s.advance.rest) R (f () s.advance) := .behind (.cons hlive .nil) h
  show Took s.rest R (f () s.advance)
  rw [hrest]
  exact hall

theorem advance_bind {k : TokenKind} {f : Unit → Parse β} (hk : k.isTerminal = false)
    (hA : ∀ ts, A ts → At k ts) (hf : Takes Anywhere (f ()) fun b ks => R b (k :: ks)) :
    Takes A (Parse.advance >>= f) R :=
  advance_then hk hA (fun _ _ _ => trivial) hf

/-- A token further ahead than the first, unless it is the first itself, stands
behind it. -/
theorem ahead_behind {t : Token} {ts : List Token} {n : Nat}
    (h : ((Stream.mk (t :: ts) 0).ahead (n + 1)).kind ≠ t.kind) :
    (Stream.mk (t :: ts) 0).ahead (n + 1) = (Stream.mk ts 0).ahead n := by
  cases ts with
  | nil => exact absurd rfl h
  | cons u ts => rfl

theorem accept_bind {m : Punctuator} {f : Bool → Parse β}
    (hyes : Takes Anywhere (f true) fun b ks => R b (.punct m :: ks))
    (hno : Takes (fun ts => A ts ∧ headKind ts ≠ .punct m) (f false) R) :
    Takes A (Parse.accept m >>= f) R := by
  rw [Parse.accept_bind_eq]
  refine check_bind (.ite (fun _ => ?_) fun h => absurd rfl h) (.ite nofun fun _ => hno)
  exact advance_bind rfl (fun _ h => h.2) hyes

theorem expect_bind {wanted : Expected} {f : Unit → Parse β}
    (hf : Takes Anywhere (f ()) fun b ks => R b (.punct wanted.mark :: ks)) :
    Takes A (Parse.expect wanted >>= f) R := by
  rw [Parse.expect_bind_eq]
  refine kind_bind fun k => .ite (fun hk => ?_) fun _ => .fail
  exact advance_bind rfl (fun _ h => h.2.trans hk) hf

/-! ### Levels, repetition and blocks -/

theorem nested (h : Takes A p Q) : Takes A (Parse.nested p) Q := by
  intro s hs
  unfold Parse.nested
  by_cases hdeep : maxDepth ≤ s.depth
  · rw [if_pos hdeep]
    exact ⟨[], _, rfl, .nil, rfl⟩
  · rw [if_neg hdeep]
    have hp := h { s with depth := s.depth + 1 } hs
    cases hps : p { s with depth := s.depth + 1 } with
    | ok a t => rw [hps] at hp; exact hp
    | error e t => rw [hps] at hp; exact hp

/-- A list is read by rounds, each of which adds an item and its tokens.  What the
list is may depend on the tokens from which it is read. -/
theorem collect_from {round : Parse (Parse.Item α)}
    {C : List Token → List α → List TokenKind → Prop}
    (hround : ∀ ts, Takes (· = ts) round fun item ks =>
      match item with
      | .stop => C ts [] ks
      | .last a => C ts [a] ks
      | .more a => ∀ as ks', C (ts.drop ks.length) as ks' → C ts (a :: as) (ks ++ ks')) :
    ∀ ts, Takes (· = ts) (Parse.collect round) (C ts) := by
  rintro _ s rfl
  have h := hround s.rest s rfl
  fun_induction Parse.collect round s with
  | case1 s e t hr => rwa [hr] at h
  | case2 s t hr => rwa [hr] at h
  | case3 s a t hr => rwa [hr] at h
  | case4 s a t hr hlt as u hrest ih =>
    rw [hr] at h
    obtain ⟨first, hfirst, hlive, hcons⟩ := h
    have hbehind : s.rest.drop (kinds first).length = t.rest := by
      rw [hfirst, kinds, List.length_map, List.drop_left]
    obtain ⟨others, hothers, hlive', has⟩ : Took t.rest (C t.rest) (.ok as u) :=
      hrest ▸ ih (hround t.rest t rfl)
    have hall : Took (first ++ t.rest) (C s.rest) (.ok (a :: as) u) :=
      .behind hlive ⟨others, hothers, hlive', hcons as _ (hbehind ▸ has)⟩
    exact hfirst ▸ hall
  | case5 s a t hr hlt e u hrest ih =>
    rw [hr] at h
    obtain ⟨first, hfirst, hlive, -⟩ := h
    have hfails : Took t.rest (C t.rest) (.error e u) := hrest ▸ ih (hround t.rest t rfl)
    have hall : Took (first ++ t.rest) (C s.rest) (.error e u) := .behind hlive hfails
    exact hfirst ▸ hall
  | case6 s a t hr =>
    rw [hr] at h
    obtain ⟨first, hfirst, hlive, -⟩ := h
    exact ⟨first, _, hfirst, hlive, rfl⟩

theorem collect {round : Parse (Parse.Item α)} {C : List α → List TokenKind → Prop}
    (hround : Takes Anywhere round fun item ks =>
      match item with
      | .stop => C [] ks
      | .last a => C [a] ks
      | .more a => ∀ as ks', C as ks' → C (a :: as) (ks ++ ks')) :
    Takes A (Parse.collect round) C :=
  fun s _ => collect_from (C := fun _ => C) (fun _ => hround.anywhere) s.rest s rfl

/-- A value is extended by links; `C` holds of it and all the tokens it was made
from. -/
theorem chain {link : α → Parse (Option α)} {C : α → List TokenKind → Prop}
    (hlink : ∀ a ks, C a ks → Takes Anywhere (link a) fun next ks' =>
      match next with
      | none => ks' = []
      | some b => C b (ks ++ ks')) {a : α} {ks : List TokenKind} (ha : C a ks) :
    Takes Anywhere (Parse.chain link a) fun b ks' => C b (ks ++ ks') := by
  rintro s -
  have h := hlink a ks ha s trivial
  fun_induction Parse.chain link a s generalizing ks with
  | case1 a s e t hr => rwa [hr] at h
  | case2 a s t hr =>
    rw [hr] at h
    obtain ⟨taken, htaken, hlive, hnone⟩ := h
    have hks : kinds taken = [] := hnone
    refine ⟨taken, htaken, hlive, ?_⟩
    show C a (ks ++ kinds taken)
    rw [hks, List.append_nil]
    exact ha
  | case3 a s b t hr hlt ih =>
    rw [hr] at h
    obtain ⟨first, hfirst, hlive, hb⟩ := h
    have hrest : Took t.rest (fun c ks' => C c (ks ++ kinds first ++ ks')) (Parse.chain link b t) :=
      ih hb (hlink b _ hb t trivial)
    simp only [List.append_assoc] at hrest
    show Took s.rest (fun c ks' => C c (ks ++ ks')) (Parse.chain link b t)
    rw [hfirst]
    exact .behind hlive hrest
  | case4 a s b t hr =>
    rw [hr] at h
    obtain ⟨first, hfirst, hlive, -⟩ := h
    exact ⟨first, _, hfirst, hlive, rfl⟩

end Takes

/-- Tokens up to the brace that closes a block with some more braces open in it:
nested tokens in front of each of the closing braces. -/
def Closes : Nat → List TokenKind → Prop
  | 0, ks => ∃ inner, Nested braces inner ∧ ks = inner ++ [.punct .rightBrace]
  | n + 1, ks => ∃ inner after, Nested braces inner ∧ ks = inner ++ .punct .rightBrace :: after ∧
      Closes n after

namespace Closes

variable {n : Nat} {k : TokenKind} {ks : List TokenKind}

theorem plain (hk : braces.Free k) (h : Closes n ks) : Closes n (k :: ks) := by
  cases n with
  | zero =>
    obtain ⟨inner, hinner, rfl⟩ := h
    exact ⟨k :: inner, .plain hk hinner, rfl⟩
  | succ n =>
    obtain ⟨inner, after, hinner, rfl, h⟩ := h
    exact ⟨k :: inner, after, .plain hk hinner, rfl, h⟩

/-- A brace that opens takes one of those that close. -/
theorem opening (h : Closes (n + 1) ks) : Closes n (.punct .leftBrace :: ks) := by
  obtain ⟨inner, after, hinner, rfl, h⟩ := h
  have hbraces : (Punctuator.leftBrace, Punctuator.rightBrace) ∈ braces := List.mem_singleton_self _
  cases n with
  | zero =>
    obtain ⟨last, hlast, rfl⟩ := h
    exact ⟨_, .group hbraces hinner hlast, by simp⟩
  | succ n =>
    obtain ⟨next, after, hnext, rfl, h⟩ := h
    exact ⟨_, after, .group hbraces hinner hnext, by simp, h⟩

theorem closing (h : Closes n ks) : Closes (n + 1) (.punct .rightBrace :: ks) :=
  ⟨[], ks, .nil, rfl, h⟩

end Closes

/-- A search for the end of a block passes over tokens that are not terminal, and
stops behind the brace that closes the block if it finds one. -/
theorem closeBlock_takes (opened : Nat) (ts : List Token) :
    ∃ taken, ts = taken ++ (closeBlock opened ts).2 ∧ Live taken ∧
      ((closeBlock opened ts).1 = true → Closes opened (kinds taken)) := by
  induction ts generalizing opened with
  | nil => exact ⟨[], rfl, .nil, (by rintro ⟨⟩)⟩
  | cons t ts ih =>
    have skip : ∀ n, t.kind.isTerminal = false →
        (∀ ks, Closes n ks → Closes opened (t.kind :: ks)) →
        ∃ taken, t :: ts = taken ++ (closeBlock n ts).2 ∧ Live taken ∧
          ((closeBlock n ts).1 = true → Closes opened (kinds taken)) := by
      intro n ht hks
      obtain ⟨taken, htaken, hlive, hcloses⟩ := ih n
      exact ⟨t :: taken, by rw [List.cons_append, ← htaken], .cons ht hlive,
        fun hclosed => hks _ (hcloses hclosed)⟩
    rw [closeBlock]
    by_cases hopen : t.kind = .punct .leftBrace
    · rw [if_pos hopen]
      exact skip _ (by rw [hopen]; rfl) fun ks h => hopen ▸ h.opening
    · rw [if_neg hopen]
      by_cases hclose : t.kind = .punct .rightBrace
      · rw [if_pos hclose]
        cases opened with
        | zero =>
          refine ⟨[t], rfl, .cons (by rw [hclose]; rfl) .nil, fun _ => ⟨[], .nil, ?_⟩⟩
          rw [kinds_cons, hclose]
          rfl
        | succ n => exact skip n (by rw [hclose]; rfl) fun ks h => hclose ▸ h.closing
      · rw [if_neg hclose]
        by_cases hterminal : t.kind.isTerminal = true
        · rw [if_pos hterminal]
          exact ⟨[], rfl, .nil, (by rintro ⟨⟩)⟩
        · have hlive : t.kind.isTerminal = false := Bool.eq_false_iff.2 hterminal
          have hfree : braces.Free t.kind :=
            ⟨hlive, fun p hp => by rw [List.mem_singleton.1 hp]; exact ⟨hopen, hclose⟩⟩
          rw [if_neg hterminal]
          exact skip _ hlive fun ks h => h.plain hfree

/-- A block that is closed is closed by the token ahead, or behind it. -/
theorem closeBlock_cons {opened : Nat} {t : Token} {ts rest : List Token}
    (h : closeBlock opened (t :: ts) = (true, rest)) :
    (rest = ts ∧ ∀ us, closeBlock opened (t :: us) = (true, us)) ∨
      ∃ n, closeBlock n ts = (true, rest) ∧
        ∀ us, closeBlock opened (t :: us) = closeBlock n us := by
  simp only [closeBlock] at h ⊢
  by_cases hopen : t.kind = .punct .leftBrace
  · rw [if_pos hopen] at h
    exact .inr ⟨_, h, fun _ => if_pos hopen⟩
  simp only [if_neg hopen] at h ⊢
  by_cases hclose : t.kind = .punct .rightBrace
  · simp only [if_pos hclose] at h ⊢
    by_cases hlast : opened = 0
    · rw [if_pos hlast] at h
      exact .inl ⟨(congrArg Prod.snd h).symm, fun _ => if_pos hlast⟩
    · rw [if_neg hlast] at h
      exact .inr ⟨_, h, fun _ => if_neg hlast⟩
  simp only [if_neg hclose] at h ⊢
  by_cases hterminal : t.kind.isTerminal = true
  · rw [if_pos hterminal] at h
    cases congrArg Prod.fst h
  · rw [if_neg hterminal] at h
    exact .inr ⟨_, h, fun _ => if_neg hterminal⟩

/-- A block that is closed is closed among some tokens, whatever is behind them, or behind
them. -/
theorem closeBlock_append {opened : Nat} {us ts rest : List Token}
    (h : closeBlock opened (us ++ ts) = (true, rest)) :
    (∃ vs, vs <:+ us ∧ rest = vs ++ ts ∧
      ∀ more, closeBlock opened (us ++ more) = (true, vs ++ more)) ∨
      ∃ n, closeBlock n ts = (true, rest) := by
  induction us generalizing opened with
  | nil => exact .inr ⟨opened, h⟩
  | cons u us ih =>
    rcases closeBlock_cons h with ⟨rfl, hclosed⟩ | ⟨n, hn, hsame⟩
    · exact .inl ⟨us, List.suffix_cons u us, rfl, fun more => hclosed (us ++ more)⟩
    · refine (ih hn).imp_left fun ⟨vs, hvs, hrest, hmore⟩ => ?_
      exact ⟨vs, hvs.trans (List.suffix_cons u us), hrest, fun more =>
        (hsame (us ++ more)).trans (hmore more)⟩

theorem Takes.skipBlock {A : List Token → Prop} :
    Takes A Rule.skipBlock fun _ ks =>
      ∃ inner, Nested braces inner ∧ ks = enclosed .leftBrace .rightBrace inner := by
  rw [Rule.skipBlock_eq]
  refine expect_bind fun s _ => ?_
  obtain ⟨taken, htaken, hlive, hcloses⟩ := closeBlock_takes 0 s.rest
  rw [Rule.restOfBlock]
  cases hc : closeBlock 0 s.rest with
  | mk closed rest =>
    rw [hc] at htaken hcloses
    cases closed with
    | true =>
      obtain ⟨inner, hinner, hks⟩ := hcloses rfl
      refine ⟨taken, htaken, hlive, inner, hinner, ?_⟩
      rw [hks]
      rfl
    | false => exact ⟨taken, _, htaken, hlive, rfl⟩

end TemplateVars
