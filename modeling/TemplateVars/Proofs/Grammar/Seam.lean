/-
What is behind a closing parenthesis.

A `Seam` is a place among tokens where a parenthesis closes, with two ways to go on from
there.  `S.Local A p` says of a reader `p` that a run of it which succeeds and stops in front
of the seam does not depend on what is behind: it is the same over both.  There is one rule for
each way to put readers together, and one for each reader that looks further ahead than to the
next token.

* `Seam.arrowFollows_same` — whether `=>` follows a group is settled in front of the seam;
* `Seam.Local.ahead_bind` — a look ahead reaches the parenthesis, but nothing behind it;
* `Seam.rules_local` — the rules of the grammar are local.

Design notes: nothing is said of a reader that fails or that goes beyond the seam.  Neither way
to go on holds an arrow, so the search for one, which may go beyond the seam, finds none
there.  The parentheses themselves may be different tokens, on a line of their own or not.
-/
import TemplateVars.Proofs.Grammar.Alike
import TemplateVars.Proofs.Grammar.Skipping

namespace TemplateVars

open Takes (Anywhere)

/-- Two ways to go on from a closing parenthesis. -/
structure Seam where
  first : List Token
  second : List Token
  first_closing : headKind first = .punct .rightParen
  second_closing : headKind second = .punct .rightParen
  first_free : ∀ t ∈ first, t.kind ≠ .punct .arrow
  second_free : ∀ t ∈ second, t.kind ≠ .punct .arrow

namespace Seam

/-- Some tokens, going on in the first way. -/
def one (S : Seam) (us : List Token) : List Token := us ++ S.first

/-- Some tokens, going on in the second way. -/
def two (S : Seam) (us : List Token) : List Token := us ++ S.second

/-- The seam with its ways exchanged. -/
def swap (S : Seam) : Seam where
  first := S.second
  second := S.first
  first_closing := S.second_closing
  second_closing := S.first_closing
  first_free := S.second_free
  second_free := S.first_free

variable (S : Seam)

theorem first_cons : ∃ t ts, S.first = t :: ts ∧ t.kind = .punct .rightParen := by
  have hclosing := S.first_closing
  cases hfirst : S.first with
  | nil =>
    rw [hfirst] at hclosing
    exact nomatch hclosing
  | cons t ts =>
    rw [hfirst] at hclosing
    exact ⟨t, ts, rfl, hclosing⟩

theorem one_inj {us vs : List Token} (h : S.one us = S.one vs) : us = vs :=
  List.append_cancel_right h

theorem one_suffix (us : List Token) : S.first <:+ S.one us := List.suffix_append us S.first

/-- Tokens that end with all that is behind the seam begin in front of it. -/
theorem eq_one {us ts : List Token} (h : ts <:+ S.one us) (hseam : S.first <:+ ts) :
    ∃ vs, vs <:+ us ∧ ts = S.one vs := by
  obtain ⟨vs, rfl⟩ := hseam
  obtain ⟨front, hfront⟩ := h
  rw [← List.append_assoc] at hfront
  exact ⟨vs, ⟨front, List.append_cancel_right hfront⟩, rfl⟩

/-- Behind the seam there are fewer tokens than in front of it. -/
theorem ne_one {ts : List Token} (h : ts.length < S.first.length) (us : List Token) :
    ts ≠ S.one us := by
  rintro rfl
  rw [one, List.length_append] at h
  omega

/-- The tokens in front of the seam are fewer in both ways, or in none. -/
theorem two_length_lt {us vs : List Token} (h : (S.one us).length < (S.one vs).length) :
    (S.two us).length < (S.two vs).length := by
  simp only [one, two, List.length_append] at h ⊢
  omega

/-- The tokens ahead begin alike. -/
theorem headKind_same (us : List Token) : headKind (S.one us) = headKind (S.two us) := by
  cases us with
  | nil => exact S.first_closing.trans S.second_closing.symm
  | cons u us => rfl

/-- A token in front of the seam is the same in both ways; the one at the seam is a
parenthesis in both. -/
theorem ahead_same {us : List Token} {n : Nat} (hn : n ≤ us.length) (d d' : Nat) :
    (Stream.mk (S.one us) d).ahead n = (Stream.mk (S.two us) d').ahead n ∨
    ((Stream.mk (S.one us) d).ahead n).kind = .punct .rightParen ∧
      ((Stream.mk (S.two us) d').ahead n).kind = .punct .rightParen := by
  rcases Nat.lt_or_eq_of_le hn with hlt | rfl
  · refine .inl ?_
    rw [Stream.ahead, Stream.ahead, one, two, List.getElem?_append_left hlt,
      List.getElem?_append_left hlt, List.getElem?_eq_getElem hlt]
  · have closing : ∀ {ts : List Token}, headKind ts = .punct .rightParen → ∀ d,
        ((Stream.mk (us ++ ts) d).ahead us.length).kind = .punct .rightParen := by
      intro ts hts d
      cases ts with
      | nil => cases hts
      | cons t ts =>
        have hget : (us ++ t :: ts)[us.length]? = some t := by simp
        rw [Stream.ahead, hget]
        exact hts
    exact .inr ⟨closing S.first_closing d, closing S.second_closing d'⟩

/-- A stream in front of the seam. -/
theorem stay {us vs : List Token} {d d' : Nat} (h : Stream.mk (S.one us) d = ⟨S.one vs, d'⟩) :
    Stream.mk (S.two us) d = ⟨S.two vs, d'⟩ := by
  obtain ⟨hus, rfl⟩ := Stream.mk.inj h
  rw [S.one_inj hus]

/-- A token in front of the seam is taken; the parenthesis at it is not, by a reader that
stays there. -/
theorem advance_before {us vs : List Token} {d d' : Nat}
    (h : (Stream.mk (S.one us) d).advance = ⟨S.one vs, d'⟩) :
    (Stream.mk (S.two us) d).advance = ⟨S.two vs, d'⟩ := by
  cases us with
  | nil =>
    obtain ⟨t, ts, hfirst, ht⟩ := S.first_cons
    have hlive : t.kind.isTerminal = false := by rw [ht]; rfl
    have hadvance : (Stream.mk (S.one []) d).advance = ⟨ts, d⟩ := by
      show (Stream.mk S.first d).advance = _
      rw [hfirst, advance_cons hlive]
    have hrest : ts = S.one vs := congrArg Stream.rest (hadvance.symm.trans h)
    exact absurd hrest (S.ne_one (by rw [hfirst]; exact Nat.lt_succ_self _) vs)
  | cons u us =>
    show (if u.kind.isTerminal then (Stream.mk (S.two (u :: us)) d) else ⟨S.two us, d⟩) = _
    change (if u.kind.isTerminal then (Stream.mk (S.one (u :: us)) d) else ⟨S.one us, d⟩) = _ at h
    split at h
    · next hu => rw [if_pos hu, S.stay h]
    · next hu => rw [if_neg hu, S.stay h]

/-! ### Arrows and blocks -/

theorem arrowNext_of_free {ts : List Token} (h : ∀ t ∈ ts, t.kind ≠ .punct .arrow) :
    arrowNext ts = false := by
  cases ts with
  | nil => rfl
  | cons t ts =>
    show (decide _ && _) = false
    rw [decide_eq_false (h t List.mem_cons_self), Bool.false_and]

/-- No arrow is found among tokens without one. -/
theorem arrowAfterClosing_of_free {ts : List Token} (h : ∀ t ∈ ts, t.kind ≠ .punct .arrow)
    (opened : Nat) : arrowAfterClosing opened ts = false := by
  induction ts generalizing opened with
  | nil => rw [arrowAfterClosing]
  | cons t ts ih =>
    have hts : ∀ u ∈ ts, u.kind ≠ .punct .arrow := fun u hu => h u (List.mem_cons_of_mem t hu)
    rw [arrowAfterClosing, ih hts, ih hts, ih hts, arrowNext_of_free hts]
    simp

theorem arrowAfterClosing_same (opened : Nat) (us : List Token) :
    arrowAfterClosing opened (S.one us) = arrowAfterClosing opened (S.two us) := by
  induction us generalizing opened with
  | nil =>
    exact (arrowAfterClosing_of_free S.first_free opened).trans
      (arrowAfterClosing_of_free S.second_free opened).symm
  | cons u us ih =>
    have hnext : arrowNext (S.one us) = arrowNext (S.two us) := by
      cases us with
      | nil => exact (arrowNext_of_free S.first_free).trans (arrowNext_of_free S.second_free).symm
      | cons v us => rfl
    show arrowAfterClosing opened (u :: S.one us) = arrowAfterClosing opened (u :: S.two us)
    rw [arrowAfterClosing, arrowAfterClosing, ih, ih, ih, hnext]

theorem arrowFollows_same (us : List Token) :
    arrowFollows (S.one us) = arrowFollows (S.two us) := by
  cases us with
  | nil =>
    have other : ∀ {ts : List Token}, headKind ts = .punct .rightParen →
        arrowFollows ts = false := by
      intro ts hts
      cases ts with
      | nil => rfl
      | cons t ts =>
        exact arrowFollows_other (by rw [show t.kind = .punct .rightParen from hts]; exact nofun)
    exact (other S.first_closing).trans (other S.second_closing).symm
  | cons u us =>
    show (_ && arrowAfterClosing 0 (S.one (u :: us))) = (_ && arrowAfterClosing 0 (S.two (u :: us)))
    rw [S.arrowAfterClosing_same]

/-- An open block that ends in front of the seam ends there in both ways. -/
theorem closeBlock_before {opened : Nat} {us vs : List Token}
    (h : closeBlock opened (S.one us) = (true, S.one vs)) :
    closeBlock opened (S.two us) = (true, S.two vs) := by
  rcases closeBlock_append h with ⟨ws, -, hrest, hmore⟩ | ⟨n, hn⟩
  · rw [S.one_inj hrest]
    exact hmore _
  · -- the search goes beyond the parenthesis and does not come back
    obtain ⟨t, ts, hfirst, ht⟩ := S.first_cons
    have hfree : braces.Free t.kind := by
      rw [ht]
      decide
    rw [hfirst, closeBlock_free hfree] at hn
    have hsuffix : S.one vs <:+ ts := by
      have := closeBlock_suffix n ts
      rwa [hn] at this
    refine absurd rfl (S.ne_one ?_ vs)
    rw [hfirst]
    exact Nat.lt_succ_of_le hsuffix.length_le

/-! ### Local readers -/

/-- Whether a run that succeeds and stops in front of the seam is the same in both ways. -/
structure Local {α : Type} (A : List Token → Prop) (p : Parse α) : Prop where
  onward {s t : Stream} {a : α} (h : p s = .ok a t) : t.rest <:+ s.rest
  before {us vs : List Token} {d d' : Nat} {a : α} (hA : A us)
    (h : p ⟨S.one us, d⟩ = .ok a ⟨S.one vs, d'⟩) : p ⟨S.two us, d⟩ = .ok a ⟨S.two vs, d'⟩

namespace Local

variable {S} {α β : Type} {A B : List Token → Prop} {p q : Parse α} {f : α → Parse β}

theorem weaken (h : S.Local A p) (hA : ∀ us, B us → A us) : S.Local B p where
  onward := h.onward
  before hus := h.before (hA _ hus)

theorem anywhere (h : S.Local Anywhere p) : S.Local A p := h.weaken fun _ _ => trivial

/-- A run that stops in front of the seam. -/
theorem before_of (h : S.Local Anywhere p) {s t : Stream} {a : α} {us vs : List Token}
    (hs : s.rest = S.one us) (ht : t.rest = S.one vs) (hrun : p s = .ok a t) :
    p ⟨S.two us, s.depth⟩ = .ok a ⟨S.two vs, t.depth⟩ := by
  obtain ⟨rest, d⟩ := s
  obtain ⟨rest', d'⟩ := t
  subst hs ht
  exact h.before trivial hrun

/-- Where the seam is still ahead behind a run, the run has stopped in front of it. -/
theorem still_ahead (h : S.Local Anywhere p) {s t : Stream} {a : α} {us : List Token}
    (hs : s.rest = S.one us) (hrun : p s = .ok a t) (hseam : S.first <:+ t.rest) :
    ∃ vs, t.rest = S.one vs := by
  obtain ⟨vs, -, hvs⟩ := S.eq_one (hs ▸ h.onward hrun) hseam
  exact ⟨vs, hvs⟩

/-! ### Looking at tokens -/

/-- A look at tokens, at what is the same in both ways for the reader behind it.  That one is
known to start where this is to be seen. -/
theorem look_bind {p : Parse α} {v : Stream → α} (hp : ∀ s, p s = .ok (v s) s)
    (h : ∀ s, S.Local (fun us => A us ∧ ∃ d, v ⟨S.one us, d⟩ = v s) (f (v s)))
    (hsame : ∀ us d, A us → f (v ⟨S.one us, d⟩) = f (v ⟨S.two us, d⟩)) :
    S.Local A (p >>= f) where
  onward {s t c} hrun := (h s).onward ((Parse.bind_of_ok (hp s)).symm.trans hrun)
  before {us vs d d' c} hA hrun := by
    rw [Parse.bind_of_ok (hp _)] at hrun ⊢
    rw [← hsame us d hA]
    exact (h _).before ⟨hA, d, rfl⟩ hrun

/-- A reader that takes nothing and finds the same in both ways. -/
theorem of_same {v : Stream → α} (hp : ∀ s, p s = .ok (v s) s)
    (hv : ∀ us d, A us → v ⟨S.one us, d⟩ = v ⟨S.two us, d⟩) : S.Local A p where
  onward {s t a} h := by
    cases (hp s).symm.trans h
    exact List.suffix_refl _
  before {us vs d d' a} hA h := by
    rw [hp] at h ⊢
    obtain ⟨rfl, hs⟩ := EStateM.Result.ok.inj h
    rw [hv us d hA, S.stay hs]

theorem pure {a : α} : S.Local A (Pure.pure a) := of_same (fun _ => rfl) fun _ _ _ => rfl

theorem fail {cause : SyntaxError} : S.Local A (Parse.fail cause : Parse α) where
  onward h := nomatch h
  before _ h := nomatch h

theorem kind : S.Local A Parse.kind := of_same (fun _ => rfl) fun us _ _ => S.headKind_same us

/-- A reader that is known to start at a token of some kind. -/
theorem kind_bind {f : TokenKind → Parse β}
    (h : ∀ k, S.Local (fun us => A us ∧ headKind (S.one us) = k) (f k)) :
    S.Local A (Parse.kind >>= f) :=
  look_bind (fun _ => rfl) (fun s => (h s.current.kind).weaken fun _ ⟨hus, _, hk⟩ => ⟨hus, hk⟩)
    fun us _ _ => congrArg f (S.headKind_same us)

/-- A look ahead, as far as to the seam.  All parentheses that may be there are the same to
the reader behind it. -/
theorem ahead_bind {n : Nat} {f : Token → Parse β} (hn : ∀ us, A us → n ≤ us.length)
    (h : ∀ t, S.Local (fun us => A us ∧ (Stream.mk (S.one us) 0).ahead n = t) (f t))
    (hclosing : ∀ t u : Token, t.kind = .punct .rightParen → u.kind = .punct .rightParen →
      f t = f u) : S.Local A (Parse.ahead n >>= f) := by
  refine look_bind (fun _ => rfl) (fun s => (h (s.ahead n)).weaken fun _ ⟨hus, _, ht⟩ => ⟨hus, ht⟩)
    fun us d hus => ?_
  rcases S.ahead_same (hn us hus) d d with hsame | ⟨hone, htwo⟩
  · rw [hsame]
  · exact hclosing _ _ hone htwo

/-- A reader that looks at all tokens ahead. -/
theorem get_bind {f : Stream → Parse β} (h : ∀ s, S.Local A (f s))
    (hsame : ∀ us d, A us → f ⟨S.one us, d⟩ = f ⟨S.two us, d⟩) :
    S.Local A (MonadState.get >>= f) :=
  look_bind (fun _ => rfl) (fun s => (h s).weaken fun _ hus => hus.1) hsame

/-! ### Taking tokens -/

theorem advance : S.Local A Parse.advance where
  onward {s t a} h := by
    obtain ⟨-, rfl⟩ := EStateM.Result.ok.inj h
    exact advance_suffix s
  before _ h := by
    obtain ⟨-, hs⟩ := EStateM.Result.ok.inj h
    exact congrArg (EStateM.Result.ok ()) (S.advance_before hs)

theorem skipBlock : S.Local A Rule.skipBlock where
  onward {s t a} h := by
    obtain ⟨-, hclose, -⟩ := skipBlock_ok.1 h
    have hsuffix := closeBlock_suffix 0 s.advance.rest
    rw [hclose] at hsuffix
    exact hsuffix.trans (advance_suffix s)
  before {us vs d d' a} _ h := by
    obtain ⟨hopen, hclose, hdepth⟩ := skipBlock_ok.1 h
    cases us with
    | nil => exact nomatch S.first_closing.symm.trans hopen
    | cons u us =>
      have hlive : u.kind.isTerminal = false := by rw [show u.kind = _ from hopen]; rfl
      have hone : (Stream.mk (S.one (u :: us)) d).advance = ⟨S.one us, d⟩ := advance_cons hlive _ d
      have htwo : (Stream.mk (S.two (u :: us)) d).advance = ⟨S.two us, d⟩ := advance_cons hlive _ d
      rw [hone] at hclose hdepth
      refine skipBlock_ok.2 ⟨hopen, ?_, ?_⟩
      · rw [htwo]
        exact S.closeBlock_before hclose
      · rw [htwo]
        exact hdepth

/-! ### Sequence and choice -/

/-- One reader after the other. -/
theorem bind (hp : S.Local A p) (hf : ∀ a, S.Local Anywhere (f a)) : S.Local A (p >>= f) where
  onward {s t c} h := by
    obtain ⟨a, u, hps, hfu⟩ := Parse.bind_ok.1 h
    exact ((hf a).onward hfu).trans (hp.onward hps)
  before {us vs d d' c} hA h := by
    obtain ⟨a, ⟨rest, depth⟩, hps, hfu⟩ := Parse.bind_ok.1 h
    obtain ⟨ws, -, rfl⟩ := S.eq_one (hp.onward hps) ((S.one_suffix vs).trans ((hf a).onward hfu))
    exact (Parse.bind_of_ok (hp.before hA hps)).trans ((hf a).before trivial hfu)

/-- A reader that takes the parenthesis at the seam goes on behind it and does not come
back. -/
theorem of_taking (h : S.Local (· ≠ []) p)
    (htakes : ∀ d a t, p ⟨S.first, d⟩ = .ok a t → t.rest.length < S.first.length) :
    S.Local A p where
  onward := h.onward
  before {us vs d d' a} _ hrun := by
    cases us with
    | nil => exact absurd rfl (S.ne_one (htakes d a _ hrun) vs)
    | cons u us => exact h.before (List.cons_ne_nil u us) hrun

theorem ite {c : Prop} [Decidable c] (hp : S.Local A p) (hq : S.Local A q) :
    S.Local A (if c then p else q) := by
  by_cases hc : c
  · rw [if_pos hc]
    exact hp
  · rw [if_neg hc]
    exact hq

theorem expect_bind {wanted : Expected} {f : Unit → Parse β} (h : S.Local Anywhere (f ())) :
    S.Local A (Parse.expect wanted >>= f) := by
  rw [Parse.expect_bind_eq]
  exact .bind .kind fun _ => .ite (.bind .advance fun _ => h) .fail

/-! ### Levels and repetition -/

theorem nested (h : S.Local A p) : S.Local A (Parse.nested p) where
  onward {s t a} hrun := by
    obtain ⟨-, u, hp, rfl⟩ := Parse.nested_ok.1 hrun
    have honward := h.onward hp
    exact honward
  before {us vs d d' a} hA hrun := by
    obtain ⟨hdepth, ⟨rest, depth⟩, hp, ht⟩ := Parse.nested_ok.1 hrun
    obtain ⟨rfl, rfl⟩ := Stream.mk.inj ht
    exact Parse.nested_ok.2 ⟨hdepth, _, h.before hA hp, rfl⟩

theorem rounds_before {round : Parse (Parse.Item α)} (h : S.Local Anywhere round) {s t : Stream}
    {as : List α} (hrounds : Parse.Rounds round s as t) {us vs : List Token}
    (hs : s.rest = S.one us) (ht : t.rest = S.one vs) :
    Parse.Rounds round ⟨S.two us, s.depth⟩ as ⟨S.two vs, t.depth⟩ := by
  induction hrounds generalizing us with
  | stop hr => exact .stop (h.before_of hs ht hr)
  | last hr => exact .last (h.before_of hs ht hr)
  | more hr hlt hrest ih =>
    obtain ⟨ws, hws⟩ := h.still_ahead hs hr ((ht ▸ S.one_suffix vs).trans (hrest.onward h.onward))
    refine .more (h.before_of hs hws hr) ?_ (ih hws ht)
    exact S.two_length_lt (hs ▸ hws ▸ hlt)

/-- A list is read locally if its rounds are. -/
theorem collect {round : Parse (Parse.Item α)} (h : S.Local Anywhere round) :
    S.Local A (Parse.collect round) where
  onward hrun := (Parse.collect_ok.1 hrun).onward h.onward
  before _ hrun := Parse.collect_ok.2 (h.rounds_before (Parse.collect_ok.1 hrun) rfl rfl)

theorem links_before {link : α → Parse (Option α)} (h : ∀ a, S.Local Anywhere (link a)) {a c : α}
    {s t : Stream} (hlinks : Parse.Links link a s c t) {us vs : List Token}
    (hs : s.rest = S.one us) (ht : t.rest = S.one vs) :
    Parse.Links link a ⟨S.two us, s.depth⟩ c ⟨S.two vs, t.depth⟩ := by
  induction hlinks generalizing us with
  | stop hr => exact .stop ((h _).before_of hs ht hr)
  | more hr hlt hrest ih =>
    obtain ⟨ws, hws⟩ :=
      (h _).still_ahead hs hr ((ht ▸ S.one_suffix vs).trans (hrest.onward fun a => (h a).onward))
    refine .more ((h _).before_of hs hws hr) ?_ (ih hws ht)
    exact S.two_length_lt (hs ▸ hws ▸ hlt)

/-- A value is extended locally if its links are made so. -/
theorem chain {link : α → Parse (Option α)} (h : ∀ a, S.Local Anywhere (link a)) (a : α) :
    S.Local A (Parse.chain link a) where
  onward hrun := (Parse.chain_ok.1 hrun).onward fun a => (h a).onward
  before _ hrun := Parse.chain_ok.2 (links_before h (Parse.chain_ok.1 hrun) rfl rfl)

end Local

end Seam

/-! ### Rules -/

/-- Whether a run of any of the rules that stops in front of the seam is the same in both
ways. -/
def Seam.LocalRules (S : Seam) (r : Rules) : Prop := ∀ c : RuleCall, S.Local c.Needs (r.read c)

namespace Seam.LocalRules

variable {S : Seam} {r : Rules}

/-- A word is not the parenthesis at the seam. -/
theorem behindWord {us : List Token} {k : TokenKind} (h : headKind (S.one us) = k) :
    BehindWord (some k) us := by
  refine behindWord_some fun hnil => ⟨.rightParen, ?_⟩
  subst hnil
  exact h.symm.trans S.first_closing

/-! ### Looking ahead -/

theorem postfixUpdate (argument : Expr) : S.Local Anywhere (Rule.postfixUpdate argument) := by
  refine .ahead_bind (fun _ _ => Nat.zero_le _) (fun t => ?_) fun t u ht hu => ?_
  · split
    · exact .ite .pure (.bind .advance fun _ => .pure)
    · exact .pure
  · rw [ht, hu]
    rfl

theorem nameOrArrow (h : S.LocalRules r) (name : String) :
    S.Local Anywhere (Rule.nameOrArrow r name) := by
  have behind : ∀ t : Token, S.Local Anywhere (do
      if t.kind = .punct .arrow ∧ !t.newlineBefore then
        Parse.advance
        r.arrowBody false [.identifier name]
      else return Expr.identifier name) := fun t =>
    .ite (.bind .advance fun _ => h (.arrowBody false _)) .pure
  have front : S.Local (· ≠ []) (Rule.nameOrArrow r name) := by
    refine .ahead_bind (fun us hus => List.length_pos_iff.2 hus)
      (fun t => .bind .advance fun _ => behind t) fun t u ht hu => ?_
    have other : ∀ v : Token, v.kind = .punct .rightParen →
        ¬(v.kind = .punct .arrow ∧ (!v.newlineBefore) = true) :=
      fun v hv hboth => nomatch hv.symm.trans hboth.1
    rw [if_neg (other t ht), if_neg (other u hu)]
  refine front.of_taking fun d a t hrun => ?_
  obtain ⟨c, ts, hfirst, hc⟩ := S.first_cons
  rw [hfirst] at hrun ⊢
  obtain ⟨next, s, hnext, hrun⟩ := Parse.bind_ok.1 hrun
  obtain ⟨-, rfl⟩ := EStateM.Result.ok.inj hnext
  obtain ⟨_, s, hadvance, hrun⟩ := Parse.bind_ok.1 hrun
  obtain ⟨-, rfl⟩ := EStateM.Result.ok.inj hadvance
  have honward := (behind next).onward hrun
  rw [advance_cons (by rw [hc]; rfl)] at honward
  exact Nat.lt_succ_of_le honward.length_le

theorem asyncFunctionRule (h : S.LocalRules r) : S.Local (· ≠ []) (Rule.asyncFunction? r) := by
  refine .ahead_bind (fun us hus => List.length_pos_iff.2 hus) (fun next => .ite .pure ?_)
    fun t u ht hu => ?_
  · split
    · exact .bind .advance fun _ => .bind (h (.functionExpression true)) fun _ => .pure
    · next name hname =>
      have hlong : ∀ us, us ≠ [] ∧ (Stream.mk (S.one us) 0).ahead 1 = next → 2 ≤ us.length := by
        rintro us ⟨hne, hnext⟩
        obtain ⟨u, us, rfl⟩ := List.exists_cons_of_ne_nil hne
        cases us with
        | nil =>
          -- behind the word stands the parenthesis, which is no name
          obtain ⟨c, ts, hfirst, hc⟩ := S.first_cons
          have hparen : (Stream.mk (S.one [u]) 0).ahead 1 = c := by
            rw [one, hfirst]
            rfl
          rw [← hnext, hparen, hc] at hname
          cases hname
        | cons v us => exact Nat.le_add_left 2 us.length
      refine .ahead_bind hlong (fun _ => .ite ?_ .pure) fun t u ht hu => ?_
      · exact .bind .advance fun _ => .bind .advance fun _ => .bind .advance fun _ =>
          .bind (h (.arrowBody true _)) fun _ => .pure
      · rw [ht, hu]
    · refine .get_bind (fun s => .ite ?_ .pure) fun us d hus => ?_
      · exact .bind .advance fun _ => .bind (h (.parenthesized true)) fun _ => .pure
      · -- the group begins in front of the seam, or is not one
        obtain ⟨u, us, rfl⟩ := List.exists_cons_of_ne_nil hus.1
        show ite (arrowFollows (S.one us) = true) _ _ = ite (arrowFollows (S.two us) = true) _ _
        rw [S.arrowFollows_same us]
    · exact .pure
  · rw [ht, hu]
    simp only [ite_self]

theorem parenthesizedRule (h : S.LocalRules r) (isAsync : Bool) :
    S.Local Anywhere (Rule.parenthesized r isAsync) := by
  refine .get_bind (fun s => .ite ?_ ?_) fun us d _ => ?_
  · refine .bind (h .parameters) fun params => .expect_bind ?_
    exact h (.arrowBody isAsync params)
  · exact .bind .advance fun _ => .bind (h .sequence) fun _ => .expect_bind .pure
  · simp only [S.arrowFollows_same us]

theorem modifier : S.Local Anywhere Rule.modifier := by
  refine .kind_bind fun k => ?_
  split
  · split
    · refine .ahead_bind (fun us hus => List.length_pos_iff.2 (behindWord hus.2))
        (fun _ => .ite (.bind .advance fun _ => .pure) .pure) fun t u ht hu => ?_
      rw [ht, hu]
    · exact .pure
  · exact .pure

theorem lookahead (h : S.LocalRules r) :
    r.Lookahead (fun k _ _ p => S.Local (BehindWord k) p) r where
  postfixUpdate := .bind (h .operand) postfixUpdate
  nameOrArrow := h.nameOrArrow
  asyncFunction? := h.asyncFunctionRule
  parenthesized := h.parenthesizedRule
  modifier := modifier

theorem related_iff :
    S.LocalRules r ↔ r.Related (fun k _ _ p => S.Local (BehindWord k) p) r :=
  forall_congr' fun c => by rw [c.needs_eq]

end Seam.LocalRules

/-! ### The rules are local -/

/-- Readers put together are local if their parts are. -/
theorem Seam.Local.congruence (S : Seam) :
    Congruence fun k _ _ p => S.Local (BehindWord k) p where
  anywhere h := .anywhere h
  pure _ := .pure
  fail _ := .fail
  advance := .advance
  bind := .bind
  kind h _ := .kind_bind fun k => (h k).weaken fun _ hus => LocalRules.behindWord hus.2
  nested h _ := .nested h
  nested_at _ h := .nested h
  collect h _ := .collect h
  chain h _ := .chain h

/-- The rules of the grammar are local. -/
theorem Seam.rules_local (S : Seam) (n : Nat) : S.LocalRules (Grammar.rules n) :=
  LocalRules.related_iff.2 ((Local.congruence S).rules .fail .skipBlock
    (fun _ h _ => (LocalRules.related_iff.2 h).lookahead) n)

end TemplateVars
