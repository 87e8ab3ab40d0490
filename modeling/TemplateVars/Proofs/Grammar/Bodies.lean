/-
Runs over two bodies.

`Bodies` are two bodies for one place among some tokens, the brackets of which are nested.
`b.Blind e A q p` says of a reader `p` that it does not see which of them is there, as far
as it stays in front of the body or passes over it.  Whether it passes over the body is
told by `q`, a reader that does the same but fails with the error `e` if it is about to.
There is one rule for each way to put readers together:

* `Bodies.Blind.bind` — one reader after the other;
* `Bodies.Blind.collect`, `Bodies.Blind.chain` — repetition;
* `Bodies.Blind.get_bind` — a look at all tokens ahead, for what comes behind a group;
* `Bodies.Blind.skipBlock` — the block itself.

Design notes: nothing is said of a reader that takes the body apart.  Readers go forward
only, so one that stops in front of the body or far enough behind it has not stopped
within.  No reader catches an error, so `q` fails as soon as one of its parts does.
-/
import TemplateVars.Proofs.Grammar.Matching
import TemplateVars.Proofs.Grammar.Taking

namespace TemplateVars

/-! ### Blocks -/

theorem closeBlock_suffix (opened : Nat) (ts : List Token) : (closeBlock opened ts).2 <:+ ts := by
  obtain ⟨taken, htaken, -⟩ := closeBlock_takes opened ts
  exact ⟨taken, htaken.symm⟩

theorem closeBlock_opening {t : Token} (ht : t.kind = .punct .leftBrace) (opened : Nat)
    (ts : List Token) : closeBlock opened (t :: ts) = closeBlock (opened + 1) ts := by
  rw [closeBlock, if_pos ht]

theorem closeBlock_closing {t : Token} (ht : t.kind = .punct .rightBrace) (opened : Nat)
    (ts : List Token) :
    closeBlock opened (t :: ts) =
      if opened = 0 then (true, ts) else closeBlock (opened - 1) ts := by
  have hopen : t.kind ≠ .punct .leftBrace := by rw [ht]; exact nofun
  rw [closeBlock, if_neg hopen, if_pos ht]

theorem closeBlock_free {t : Token} (ht : braces.Free t.kind) (opened : Nat) (ts : List Token) :
    closeBlock opened (t :: ts) = closeBlock opened ts := by
  obtain ⟨hopen, hclose⟩ := ht.2 _ (List.mem_singleton_self _)
  rw [closeBlock, if_neg hopen, if_neg hclose, ht.1, if_neg Bool.false_ne_true]

/-- Among nested brackets the braces are nested. -/
theorem Nested.onlyBraces {ks : List TokenKind} (h : Nested brackets ks) : Nested braces ks := by
  induction h with
  | nil => exact .nil
  | plain hk _ ih =>
    refine .plain ⟨hk.1, fun p hp => hk.2 p ?_⟩ ih
    rw [List.mem_singleton.1 hp]
    decide
  | group hp _ _ ihinner ih =>
    rcases List.mem_cons.1 hp with hp | hp
    · cases hp
      exact .plain (by decide) (ihinner.append (.plain (by decide) ih))
    rcases List.mem_cons.1 hp with hp | hp
    · cases hp
      exact .plain (by decide) (ihinner.append (.plain (by decide) ih))
    · obtain ⟨rfl, rfl⟩ := Prod.mk.inj (List.mem_singleton.1 hp)
      exact .group (List.mem_singleton_self _) ihinner ih

/-- The search for the end of a block passes over nested braces. -/
theorem Nested.closeBlock_append {ts : List Token} (h : Nested braces (kinds ts)) (opened : Nat)
    (rest : List Token) : closeBlock opened (ts ++ rest) = closeBlock opened rest := by
  generalize hks : kinds ts = ks at h
  induction h generalizing ts opened rest with
  | nil =>
    obtain rfl := List.map_eq_nil_iff.1 hks
    rfl
  | plain hk _ ih =>
    obtain ⟨t, ts, rfl, rfl, hts⟩ := List.map_eq_cons_iff.1 hks
    rw [List.cons_append, closeBlock_free hk, ih _ _ hts]
  | group hp _ _ ihinner ih =>
    obtain ⟨t, ts, rfl, ht, hts⟩ := List.map_eq_cons_iff.1 hks
    obtain ⟨inner, behind, rfl, hinner, hbehind⟩ := List.map_eq_append_iff.1 hts
    obtain ⟨u, after, rfl, hu, hafter⟩ := List.map_eq_cons_iff.1 hbehind
    obtain ⟨rfl, rfl⟩ := Prod.mk.inj (List.mem_singleton.1 hp)
    rw [List.cons_append, List.append_assoc, List.cons_append, closeBlock_opening ht,
      ihinner _ _ hinner, closeBlock_closing hu, if_neg (Nat.succ_ne_zero opened),
      Nat.add_sub_cancel, ih _ _ hafter]

/-- A block is passed over if it begins with a brace and its end is found behind that. -/
theorem skipBlock_ok {s t : Stream} :
    Rule.skipBlock s = .ok () t ↔ s.current.kind = .punct .leftBrace ∧
      closeBlock 0 s.advance.rest = (true, t.rest) ∧ t.depth = s.advance.depth := by
  have hbind : (do Parse.expect .bodyOpen; Rule.restOfBlock) s =
      EStateM.bind (Parse.expect .bodyOpen) (fun _ => Rule.restOfBlock) s := rfl
  rw [Rule.skipBlock_eq, hbind, EStateM.bind, Parse.expect]
  by_cases hopen : s.current.kind = .punct .leftBrace
  · simp only [Expected.mark, hopen, ↓reduceIte, Rule.restOfBlock]
    cases closeBlock 0 s.advance.rest with
    | mk closed rest =>
      cases closed with
      | false => exact ⟨(by rintro ⟨⟩), fun h => by cases h.2.1⟩
      | true =>
        refine ⟨fun h => ?_, fun h => ?_⟩
        · cases h
          exact ⟨trivial, rfl, rfl⟩
        · obtain ⟨-, hrest, ht⟩ := h
          cases hrest
          rw [← ht]
  · simp only [Expected.mark, hopen, ↓reduceIte]
    exact ⟨(by rintro ⟨⟩), fun h => h.1.elim⟩

/-- `skipBlock`, except that it fails with an error where just some tokens are left. -/
def Rule.skipBlockBut (ts : List Token) (e : ParseError) : Parse Unit := fun s =>
  if s.rest = ts then .error e s else Rule.skipBlock s

/-! ### Two bodies -/

/-- A body between braces and another one for its place. -/
structure Bodies where
  opening : Token
  first : List Token
  second : List Token
  closing : Token
  after : List Token
  opening_brace : opening.kind = .punct .leftBrace
  closing_brace : closing.kind = .punct .rightBrace
  first_nested : Nested brackets (kinds first)
  second_nested : Nested brackets (kinds second)

/-- Some tokens with a body behind them. -/
def Bodies.withBody (b : Bodies) (body us : List Token) : List Token :=
  us ++ b.opening :: (body ++ b.closing :: b.after)

namespace Bodies

/-- Tokens with the first body behind them. -/
def one (b : Bodies) (us : List Token) : List Token := b.withBody b.first us

/-- Tokens with the second body behind them. -/
def two (b : Bodies) (us : List Token) : List Token := b.withBody b.second us

variable (b : Bodies)

theorem one_inj {us vs : List Token} (h : b.one us = b.one vs) : us = vs :=
  List.append_cancel_right h

theorem one_length (us : List Token) : (b.one us).length = us.length + (b.one []).length :=
  List.length_append

theorem two_length (us : List Token) : (b.two us).length = us.length + (b.two []).length :=
  List.length_append

/-- The tokens in front of the body are fewer over both bodies, or over none. -/
theorem two_length_lt_iff (us vs : List Token) :
    (b.two us).length < (b.two vs).length ↔ (b.one us).length < (b.one vs).length := by
  rw [b.two_length, b.two_length vs, b.one_length, b.one_length vs]
  omega

/-- Behind the body there are fewer tokens. -/
theorem after_length_lt {ts : List Token} (h : ts <:+ b.after) (us : List Token) :
    ts.length < (b.two us).length := by
  have hle := h.length_le
  rw [two_length, two, withBody]
  simp only [List.nil_append, List.length_cons, List.length_append]
  omega

/-- Tokens that end with all of the body begin in front of it. -/
theorem eq_one {us ts : List Token} (h : ts <:+ b.one us) (hbody : b.one [] <:+ ts) :
    ∃ vs, vs <:+ us ∧ ts = b.one vs := by
  obtain ⟨vs, rfl⟩ := hbody
  obtain ⟨front, hfront⟩ := h
  rw [← List.append_assoc] at hfront
  exact ⟨vs, ⟨front, List.append_cancel_right hfront⟩, rfl⟩

theorem one_suffix (us : List Token) : b.one [] <:+ b.one us := ⟨us, rfl⟩

/-- Behind the body there is less than all of it. -/
theorem not_one_suffix {us ts : List Token} (h : ts <:+ b.first ++ b.closing :: b.after) :
    ts ≠ b.one us := by
  rintro rfl
  have hle := h.length_le
  rw [one_length, one, withBody] at hle
  simp only [List.nil_append, List.length_cons] at hle
  omega

theorem opening_live : b.opening.kind.isTerminal = false := by
  rw [b.opening_brace]
  rfl

/-- The brace that opens the body is taken. -/
theorem advance_opening (body : List Token) (d : Nat) :
    (Stream.mk (b.withBody body []) d).advance = ⟨body ++ b.closing :: b.after, d⟩ :=
  advance_cons b.opening_live _ d

/-- The tokens ahead begin alike. -/
theorem headKind_same (us : List Token) : headKind (b.one us) = headKind (b.two us) := by
  cases us <;> rfl

/-- The tokens up to the brace that opens the body are the same. -/
theorem ahead_same {us : List Token} {n : Nat} (hn : n ≤ us.length) (d d' : Nat) :
    (Stream.mk (b.one us) d).ahead n = (Stream.mk (b.two us) d').ahead n := by
  have hlt : n < (us ++ [b.opening]).length := by
    rw [List.length_append]
    exact Nat.lt_succ_of_le hn
  have behind : ∀ body, (b.withBody body us)[n]? = (us ++ [b.opening])[n]? := by
    intro body
    rw [withBody, List.append_cons, List.getElem?_append_left hlt]
  rw [Stream.ahead, Stream.ahead, one, two, behind, behind, List.getElem?_eq_getElem hlt]

theorem arrowNext_same (us : List Token) : arrowNext (b.one us) = arrowNext (b.two us) := by
  cases us <;> rfl

/-- A stream in front of the body. -/
theorem stay {us vs : List Token} {d d' : Nat}
    (h : Stream.mk (b.one us) d = ⟨b.one vs, d'⟩) : Stream.mk (b.two us) d = ⟨b.two vs, d'⟩ := by
  obtain ⟨hus, rfl⟩ := Stream.mk.inj h
  rw [b.one_inj hus]

/-- A token in front of the body is taken; the brace that opens it is not, by a reader that
stays there. -/
theorem advance_before {us vs : List Token} {d d' : Nat}
    (h : (Stream.mk (b.one us) d).advance = ⟨b.one vs, d'⟩) :
    (Stream.mk (b.two us) d).advance = ⟨b.two vs, d'⟩ := by
  cases us with
  | nil =>
    have hrest := congrArg Stream.rest ((b.advance_opening b.first d).symm.trans h)
    exact absurd hrest (b.not_one_suffix (List.suffix_refl _))
  | cons u us =>
    show (if u.kind.isTerminal then (Stream.mk (b.two (u :: us)) d) else ⟨b.two us, d⟩) = _
    change (if u.kind.isTerminal then (Stream.mk (b.one (u :: us)) d) else ⟨b.one us, d⟩) = _ at h
    split at h
    · next hu => rw [if_pos hu, b.stay h]
    · next hu => rw [if_neg hu, b.stay h]

theorem balanced (body : List Token) (h : Nested brackets (kinds body)) :
    Balanced (b.opening :: (body ++ [b.closing])) := by
  refine h.balanced.enclosed ?_ ?_ ?_
  · rw [b.opening_brace]; rfl
  · rw [b.closing_brace]; rfl
  · rw [b.closing_brace]; rfl

/-- The search for the end of an open group goes on behind the body. -/
theorem arrowAfterClosing_same {opened : Nat} (h : 0 < opened) (us : List Token) :
    arrowAfterClosing opened (b.one us) = arrowAfterClosing opened (b.two us) := by
  induction us generalizing opened with
  | nil =>
    have passes : ∀ body, Nested brackets (kinds body) →
        arrowAfterClosing opened (b.withBody body []) = arrowAfterClosing opened b.after := by
      intro body hbody
      have := b.balanced body hbody opened b.after h
      simpa [withBody] using this
    exact (passes _ b.first_nested).trans (passes _ b.second_nested).symm
  | cons u us ih =>
    show arrowAfterClosing opened (u :: b.one us) = arrowAfterClosing opened (u :: b.two us)
    rw [arrowAfterClosing, arrowAfterClosing, ih (Nat.succ_pos opened), ih h, b.arrowNext_same]
    by_cases hlast : opened - 1 = 0
    · rw [if_pos hlast, if_pos hlast]
    · rw [if_neg hlast, if_neg hlast, ih (Nat.pos_of_ne_zero hlast)]

theorem arrowFollows_same (us : List Token) :
    arrowFollows (b.one us) = arrowFollows (b.two us) := by
  cases us with
  | nil =>
    have hother : b.opening.kind ≠ .punct .leftParen := by rw [b.opening_brace]; exact nofun
    exact (arrowFollows_other hother).trans (arrowFollows_other hother).symm
  | cons u us =>
    show (_ && arrowAfterClosing 0 (u :: b.one us)) = (_ && arrowAfterClosing 0 (u :: b.two us))
    by_cases hu : u.kind = .punct .leftParen
    · rw [arrowAfterClosing, arrowAfterClosing, hu, if_pos rfl, if_pos rfl,
        b.arrowAfterClosing_same Nat.one_pos]
      rfl
    · rw [decide_eq_false hu, Bool.false_and, Bool.false_and]

/-- An open block that ends in front of the body ends there over the other body too. -/
theorem closeBlock_before {opened : Nat} {us vs : List Token}
    (h : closeBlock opened (b.one us) = (true, b.one vs)) :
    closeBlock opened (b.two us) = (true, b.two vs) := by
  rcases closeBlock_append h with ⟨ws, -, hrest, hmore⟩ | ⟨n, hn⟩
  · rw [b.one_inj hrest]
    exact hmore _
  · rw [closeBlock_opening b.opening_brace] at hn
    exact absurd (congrArg Prod.snd hn) (b.not_one_suffix (closeBlock_suffix ..))

/-- The block that the body is is passed over as a whole. -/
theorem skipBlock_body {body : List Token} (h : Nested brackets (kinds body)) (d : Nat) :
    Rule.skipBlock ⟨b.withBody body [], d⟩ = .ok () ⟨b.after, d⟩ := by
  refine skipBlock_ok.2 ⟨b.opening_brace, ?_, ?_⟩
  · rw [b.advance_opening, h.onlyBraces.closeBlock_append, closeBlock_closing b.closing_brace,
      if_pos rfl]
  · rw [b.advance_opening]

/-! ### Blind readers -/

/-- Whether a reader that succeeds in front of the body, or passes over it, does not see
which body is there.  Where `q` does not do the same, it fails with `e`, and the body is
still ahead. -/
structure Blind (e : ParseError) {α : Type} (A : List Token → Prop) (q p : Parse α) : Prop where
  onward {s t : Stream} {a : α} (h : p s = .ok a t) : t.rest <:+ s.rest
  settled (s : Stream) : (∃ t, q s = .error e t) ∧ b.one [] <:+ s.rest ∨ q s = p s
  before {us vs : List Token} {d d' : Nat} {a : α} (hA : A us)
    (h : p ⟨b.one us, d⟩ = .ok a ⟨b.one vs, d'⟩) : p ⟨b.two us, d⟩ = .ok a ⟨b.two vs, d'⟩
  across {us : List Token} {d : Nat} {a : α} {t u : Stream} (hA : A us)
    (hq : q ⟨b.one us, d⟩ = .error e u) (h : p ⟨b.one us, d⟩ = .ok a t) :
    t.rest <:+ b.after ∧ p ⟨b.two us, d⟩ = .ok a t

namespace Blind

open Takes (Anywhere)

variable {b} {e : ParseError} {α β : Type} {A A' : List Token → Prop} {q p : Parse α}
  {g f : α → Parse β}

/-- A reader without a block that it might pass over. -/
theorem of_plain (honward : ∀ {s t : Stream} {a : α}, p s = .ok a t → t.rest <:+ s.rest)
    (hbefore : ∀ {us vs : List Token} {d d' : Nat} {a : α}, A us →
      p ⟨b.one us, d⟩ = .ok a ⟨b.one vs, d'⟩ → p ⟨b.two us, d⟩ = .ok a ⟨b.two vs, d'⟩) :
    b.Blind e A p p where
  onward := honward
  settled _ := .inr rfl
  before := hbefore
  across _ hq h := nomatch hq.symm.trans h

theorem weaken (h : b.Blind e A q p) (hA : ∀ us, A' us → A us) : b.Blind e A' q p where
  onward := h.onward
  settled := h.settled
  before hus := h.before (hA _ hus)
  across hus := h.across (hA _ hus)

theorem anywhere (h : b.Blind e Anywhere q p) : b.Blind e A q p := h.weaken fun _ _ => trivial

/-- A run that stops in front of the body. -/
theorem before_of (h : b.Blind e Anywhere q p) {s t : Stream} {a : α} {us vs : List Token}
    (hs : s.rest = b.one us) (ht : t.rest = b.one vs) (hrun : p s = .ok a t) :
    p ⟨b.two us, s.depth⟩ = .ok a ⟨b.two vs, t.depth⟩ := by
  obtain ⟨rest, d⟩ := s
  obtain ⟨rest', d'⟩ := t
  subst hs ht
  exact h.before trivial hrun

/-- A run that passes over the body. -/
theorem across_of (h : b.Blind e Anywhere q p) {s t u : Stream} {a : α} {us : List Token}
    (hs : s.rest = b.one us) (hq : q s = .error e u) (hrun : p s = .ok a t) :
    t.rest <:+ b.after ∧ p ⟨b.two us, s.depth⟩ = .ok a t := by
  obtain ⟨rest, d⟩ := s
  subst hs
  exact h.across trivial hq hrun

/-- Where the body is still ahead behind a run, the run has stopped in front of it. -/
theorem still_ahead (h : b.Blind e Anywhere q p) {s t : Stream} {a : α} {us : List Token}
    (hs : s.rest = b.one us) (hrun : p s = .ok a t) (hbody : b.one [] <:+ t.rest) :
    ∃ vs, t.rest = b.one vs := by
  obtain ⟨vs, -, hvs⟩ := b.eq_one (hs ▸ h.onward hrun) hbody
  exact ⟨vs, hvs⟩

/-! ### Looking at tokens -/

/-- A reader that takes nothing and does not see the body. -/
theorem of_same {v : Stream → α} (hp : ∀ s, p s = .ok (v s) s)
    (hv : ∀ us d, A us → v ⟨b.one us, d⟩ = v ⟨b.two us, d⟩) : b.Blind e A p p := by
  refine of_plain (fun {s t a} h => ?_) fun {us vs d d' a} hA h => ?_
  · rw [hp] at h
    cases h
    exact List.suffix_refl _
  · rw [hp] at h ⊢
    obtain ⟨rfl, hs⟩ := EStateM.Result.ok.inj h
    rw [hv us d hA, b.stay hs]

theorem pure {a : α} : b.Blind e A (Pure.pure a) (Pure.pure a) :=
  of_same (fun _ => rfl) fun _ _ _ => rfl

theorem fail {cause : SyntaxError} : b.Blind e A (Parse.fail cause : Parse α) (Parse.fail cause) :=
  of_plain (fun h => nomatch h) fun _ h => nomatch h

theorem kind : b.Blind e A Parse.kind Parse.kind :=
  of_same (fun _ => rfl) fun us _ _ => b.headKind_same us

/-- A token in front of the body, or the brace that opens it. -/
theorem ahead {n : Nat} (hn : ∀ us, A us → n ≤ us.length) :
    b.Blind e A (Parse.ahead n) (Parse.ahead n) :=
  of_same (fun _ => rfl) fun us d hA => b.ahead_same (hn us hA) d d

/-! ### Taking tokens -/

theorem advance : b.Blind e A Parse.advance Parse.advance := by
  refine of_plain (fun {s t a} h => ?_) fun {us vs d d' a} _ h => ?_
  · obtain ⟨-, rfl⟩ := EStateM.Result.ok.inj h
    exact advance_suffix s
  · obtain ⟨-, hs⟩ := EStateM.Result.ok.inj h
    exact congrArg (EStateM.Result.ok ()) (b.advance_before hs)

theorem expect {wanted : Expected} : b.Blind e A (Parse.expect wanted) (Parse.expect wanted) := by
  refine of_plain (fun {s t a} h => ?_) fun {us vs d d' a} _ h => ?_
  · unfold Parse.expect at h
    split at h
    · obtain ⟨-, rfl⟩ := EStateM.Result.ok.inj h
      exact advance_suffix s
    · cases h
  · have hkind : (Stream.mk (b.one us) d).current.kind = (Stream.mk (b.two us) d).current.kind :=
      b.headKind_same us
    rw [Parse.expect, hkind] at h
    rw [Parse.expect]
    split at h
    · next hm =>
      obtain ⟨-, hs⟩ := EStateM.Result.ok.inj h
      rw [if_pos hm, b.advance_before hs]
    · cases h

/-- A block is passed over, unless that is the body; it is told from others by what is
left. -/
theorem skipBlock : b.Blind e A (Rule.skipBlockBut (b.one []) e) Rule.skipBlock where
  onward {s t a} h := by
    obtain ⟨-, hclose, -⟩ := skipBlock_ok.1 h
    have hsuffix := closeBlock_suffix 0 s.advance.rest
    rw [hclose] at hsuffix
    exact hsuffix.trans (advance_suffix s)
  settled s := by
    by_cases hs : s.rest = b.one []
    · exact .inl ⟨⟨s, if_pos hs⟩, hs ▸ List.suffix_refl _⟩
    · exact .inr (if_neg hs)
  before {us vs d d' a} _ h := by
    cases us with
    | nil =>
      -- the body is passed over, but the reader is said to stay in front of it
      have hrest := congrArg Stream.rest
        (EStateM.Result.ok.inj ((b.skipBlock_body b.first_nested d).symm.trans h)).2
      exact absurd hrest (b.not_one_suffix ((List.suffix_cons _ _).trans (List.suffix_append _ _)))
    | cons u us =>
      obtain ⟨hopen, hclose, hdepth⟩ := skipBlock_ok.1 h
      have hlive : u.kind.isTerminal = false := by rw [show u.kind = _ from hopen]; rfl
      have hone : (Stream.mk (b.one (u :: us)) d).advance = ⟨b.one us, d⟩ := advance_cons hlive _ d
      have htwo : (Stream.mk (b.two (u :: us)) d).advance = ⟨b.two us, d⟩ := advance_cons hlive _ d
      rw [hone] at hclose hdepth
      refine skipBlock_ok.2 ⟨hopen, ?_, ?_⟩
      · rw [htwo]
        exact b.closeBlock_before hclose
      · rw [htwo]
        exact hdepth
  across {us d a t u} _ hq h := by
    by_cases hbody : b.one us = b.one []
    · obtain rfl := b.one_inj hbody
      cases (b.skipBlock_body b.first_nested d).symm.trans h
      exact ⟨List.suffix_refl _, b.skipBlock_body b.second_nested d⟩
    · exact nomatch hq.symm.trans ((if_neg hbody).trans h)

/-! ### Sequence and choice -/

/-- One reader after the other. -/
theorem bind (hp : b.Blind e A q p) (hf : ∀ a, b.Blind e Anywhere (g a) (f a)) :
    b.Blind e A (q >>= g) (p >>= f) := by
  refine ⟨fun {s t c} h => ?_, fun s => ?_, fun {us vs d d' c} hA h => ?_,
    fun {us d c t v} hA hqg h => ?_⟩
  · obtain ⟨a, u, hps, hfu⟩ := Parse.bind_ok.1 h
    exact ((hf a).onward hfu).trans (hp.onward hps)
  · rcases hp.settled s with ⟨⟨t, hq⟩, hbody⟩ | hq
    · exact .inl ⟨⟨t, Parse.bind_of_error hq⟩, hbody⟩
    · cases hps : p s with
      | error e' u =>
        exact .inr ((Parse.bind_of_error (hq.trans hps)).trans (Parse.bind_of_error hps).symm)
      | ok a u =>
        have hqs := Parse.bind_of_ok (f := g) (hq.trans hps)
        rcases (hf a).settled u with ⟨⟨t, hg⟩, hbody⟩ | hg
        · exact .inl ⟨⟨t, hqs.trans hg⟩, hbody.trans (hp.onward hps)⟩
        · exact .inr (hqs.trans (hg.trans (Parse.bind_of_ok hps).symm))
  · obtain ⟨a, ⟨rest, depth⟩, hps, hfu⟩ := Parse.bind_ok.1 h
    obtain ⟨ws, -, rfl⟩ := b.eq_one (hp.onward hps)
      ((b.one_suffix vs).trans ((hf a).onward hfu))
    exact (Parse.bind_of_ok (hp.before hA hps)).trans ((hf a).before trivial hfu)
  · obtain ⟨a, ⟨rest, depth⟩, hps, hfu⟩ := Parse.bind_ok.1 h
    rcases hp.settled ⟨b.one us, d⟩ with ⟨⟨t', hq⟩, -⟩ | hq
    · obtain ⟨hrest, htwo⟩ := hp.across hA hq hps
      exact ⟨((hf a).onward hfu).trans hrest, (Parse.bind_of_ok htwo).trans hfu⟩
    · -- then the second reader passes over the body, which is still ahead
      have hg : g a ⟨rest, depth⟩ = .error e v :=
        (Parse.bind_of_ok (hq.trans hps)).symm.trans hqg
      rcases (hf a).settled ⟨rest, depth⟩ with ⟨-, hbody⟩ | hgf
      · obtain ⟨ws, -, rfl⟩ := b.eq_one (hp.onward hps) hbody
        obtain ⟨hrest, htwo⟩ := (hf a).across trivial hg hfu
        exact ⟨hrest, (Parse.bind_of_ok (hp.before hA hps)).trans htwo⟩
      · exact nomatch hg.symm.trans (hgf.trans hfu)

/-- A look at the token behind the current one, which is then taken.  If that was the brace
that opens the body, the reader goes on inside the body and does not come back. -/
theorem ahead_advance {g f : Token → Parse β} (h : ∀ t, b.Blind e Anywhere (g t) (f t)) :
    b.Blind e A (do let t ← Parse.ahead 1; Parse.advance; g t)
      (do let t ← Parse.ahead 1; Parse.advance; f t) := by
  have front : b.Blind e (· ≠ []) (do let t ← Parse.ahead 1; Parse.advance; g t)
      (do let t ← Parse.ahead 1; Parse.advance; f t) :=
    .bind (.ahead fun us hus => List.length_pos_iff.2 hus) fun t => .bind .advance fun _ => h t
  have inside : ∀ (f : Token → Parse β) d,
      (do let t ← Parse.ahead 1; Parse.advance; f t : Parse β) ⟨b.one [], d⟩ =
        f ((Stream.mk (b.one []) d).ahead 1) ⟨b.first ++ b.closing :: b.after, d⟩ := by
    intro f d
    show f _ (Stream.mk (b.withBody b.first []) d).advance = _
    rw [b.advance_opening]
  refine ⟨front.onward, front.settled, fun {us vs d d' c} _ hrun => ?_,
    fun {us d c t v} _ hq hrun => ?_⟩
  · cases us with
    | nil =>
      rw [inside] at hrun
      exact absurd rfl (b.not_one_suffix ((h _).onward hrun))
    | cons u us => exact front.before (List.cons_ne_nil u us) hrun
  · cases us with
    | nil =>
      rw [inside] at hq hrun
      rcases (h _).settled ⟨b.first ++ b.closing :: b.after, d⟩ with ⟨-, hbody⟩ | hsame
      · exact absurd rfl (b.not_one_suffix hbody)
      · exact nomatch hq.symm.trans (hsame.trans hrun)
    | cons u us => exact front.across (List.cons_ne_nil u us) hq hrun

theorem ite {c : Prop} [Decidable c] {q' p' : Parse α} (hp : b.Blind e A q p)
    (hp' : b.Blind e A q' p') : b.Blind e A (if c then q else q') (if c then p else p') := by
  by_cases hc : c
  · rw [if_pos hc, if_pos hc]
    exact hp
  · rw [if_neg hc, if_neg hc]
    exact hp'

/-- A look at tokens, at what is the same over both bodies for the reader behind it.  That
one is known to start where this is to be seen. -/
theorem look_bind {p : Parse α} {v : Stream → α} (hp : ∀ s, p s = .ok (v s) s)
    (h : ∀ s, b.Blind e (fun us => A us ∧ ∃ d, v ⟨b.one us, d⟩ = v s) (g (v s)) (f (v s)))
    (hsame : ∀ us d, A us → f (v ⟨b.one us, d⟩) = f (v ⟨b.two us, d⟩)) :
    b.Blind e A (p >>= g) (p >>= f) where
  onward {s t c} hrun := (h s).onward ((Parse.bind_of_ok (hp s)).symm.trans hrun)
  settled s := by
    rw [Parse.bind_of_ok (hp s), Parse.bind_of_ok (hp s)]
    exact (h s).settled s
  before {us vs d d' c} hA hrun := by
    rw [Parse.bind_of_ok (hp _)] at hrun ⊢
    rw [← hsame us d hA]
    exact (h _).before ⟨hA, d, rfl⟩ hrun
  across {us d c t u} hA hq hrun := by
    rw [Parse.bind_of_ok (hp _)] at hq hrun ⊢
    rw [← hsame us d hA]
    exact (h _).across ⟨hA, d, rfl⟩ hq hrun

/-- A reader that is known to start at a token of some kind. -/
theorem kind_bind {g f : TokenKind → Parse β}
    (h : ∀ k, b.Blind e (fun us => A us ∧ headKind (b.one us) = k) (g k) (f k)) :
    b.Blind e A (Parse.kind >>= g) (Parse.kind >>= f) :=
  look_bind (fun _ => rfl) (fun s => (h s.current.kind).weaken fun _ ⟨hus, _, hk⟩ => ⟨hus, hk⟩)
    fun us _ _ => congrArg f (b.headKind_same us)

/-- A reader that is known to start in front of some token. -/
theorem ahead_bind {n : Nat} {g f : Token → Parse β} (hn : ∀ us, A us → n ≤ us.length)
    (h : ∀ t, b.Blind e (fun us => A us ∧ (Stream.mk (b.one us) 0).ahead n = t) (g t) (f t)) :
    b.Blind e A (Parse.ahead n >>= g) (Parse.ahead n >>= f) :=
  look_bind (fun _ => rfl) (fun s => (h (s.ahead n)).weaken fun _ ⟨hus, _, ht⟩ => ⟨hus, ht⟩)
    fun us d hus => congrArg f (b.ahead_same (hn us hus) d d)

/-- A reader that looks at all tokens ahead. -/
theorem get_bind {g f : Stream → Parse β} (h : ∀ s, b.Blind e A (g s) (f s))
    (hsame : ∀ us d, A us → f ⟨b.one us, d⟩ = f ⟨b.two us, d⟩) :
    b.Blind e A (MonadState.get >>= g) (MonadState.get >>= f) :=
  look_bind (fun _ => rfl) (fun s => (h s).weaken fun _ hus => hus.1) hsame

/-! ### Levels and repetition -/

theorem nested (h : b.Blind e A q p) : b.Blind e A (Parse.nested q) (Parse.nested p) := by
  refine ⟨fun {s t a} hrun => ?_, fun s => ?_, fun {us vs d d' a} hA hrun => ?_,
    fun {us d a t v} hA hq hrun => ?_⟩
  · obtain ⟨-, u, hp, rfl⟩ := Parse.nested_ok.1 hrun
    have honward := h.onward hp
    exact honward
  · by_cases hdeep : s.depth < maxDepth
    · rcases h.settled { s with depth := s.depth + 1 } with ⟨⟨t, hq⟩, hbody⟩ | hq
      · exact .inl ⟨⟨_, (Parse.nested_error hdeep).2 ⟨t, hq, rfl⟩⟩, hbody⟩
      · refine .inr ?_
        rw [Parse.nested, Parse.nested, hq]
    · refine .inr ?_
      rw [Parse.nested, Parse.nested, if_pos (Nat.le_of_not_lt hdeep),
        if_pos (Nat.le_of_not_lt hdeep)]
  · obtain ⟨hdepth, ⟨rest, depth⟩, hp, ht⟩ := Parse.nested_ok.1 hrun
    obtain ⟨rfl, rfl⟩ := Stream.mk.inj ht
    exact Parse.nested_ok.2 ⟨hdepth, _, h.before hA hp, rfl⟩
  · obtain ⟨hdepth, u, hp, rfl⟩ := Parse.nested_ok.1 hrun
    obtain ⟨w, hq, -⟩ := (Parse.nested_error hdepth).1 hq
    obtain ⟨hrest, htwo⟩ := h.across hA hq hp
    exact ⟨hrest, Parse.nested_ok.2 ⟨hdepth, u, htwo, rfl⟩⟩

section

variable {probe round : Parse (Parse.Item α)} (h : b.Blind e Anywhere probe round)

include h

theorem collect_settled (s : Stream) :
    (∃ t, Parse.collect probe s = .error e t) ∧ b.one [] <:+ s.rest ∨
      Parse.collect probe s = Parse.collect round s := by
  -- on the tokens that are left
  induction hn : s.rest.length using Nat.strongRecOn generalizing s with
  | _ n ih =>
    rw [Parse.collect, Parse.collect]
    rcases h.settled s with ⟨⟨t, hq⟩, hbody⟩ | hq
    · rw [hq]
      exact .inl ⟨⟨t, rfl⟩, hbody⟩
    rw [hq]
    cases hr : round s with
    | error e' u => exact .inr rfl
    | ok item u =>
      cases item with
      | stop => exact .inr rfl
      | last a => exact .inr rfl
      | more a =>
        by_cases hlt : u.rest.length < s.rest.length
        · simp only [hlt, ↓reduceIte]
          rcases ih u.rest.length (hn ▸ hlt) u rfl with ⟨⟨t, hq⟩, hbody⟩ | hq
          · rw [hq]
            exact .inl ⟨⟨t, rfl⟩, hbody.trans (h.onward hr)⟩
          · rw [hq]
            exact .inr rfl
        · simp only [hlt, ↓reduceIte]
          exact .inr trivial

theorem rounds_before {s t : Stream} {as : List α} (hrounds : Parse.Rounds round s as t)
    {us vs : List Token} (hs : s.rest = b.one us) (ht : t.rest = b.one vs) :
    Parse.Rounds round ⟨b.two us, s.depth⟩ as ⟨b.two vs, t.depth⟩ := by
  induction hrounds generalizing us with
  | stop hr => exact .stop (h.before_of hs ht hr)
  | last hr => exact .last (h.before_of hs ht hr)
  | more hr hlt hrest ih =>
    obtain ⟨ws, hws⟩ := h.still_ahead hs hr ((ht ▸ b.one_suffix vs).trans (hrest.onward h.onward))
    refine .more (h.before_of hs hws hr) ?_ (ih hws ht)
    exact (b.two_length_lt_iff ws us).2 (hs ▸ hws ▸ hlt)

theorem rounds_across {s t v : Stream} {as : List α} (hrounds : Parse.Rounds round s as t)
    {us : List Token} (hs : s.rest = b.one us) (hq : Parse.collect probe s = .error e v) :
    t.rest <:+ b.after ∧ Parse.Rounds round ⟨b.two us, s.depth⟩ as t := by
  induction hrounds generalizing us v with
  | @stop s t hr =>
    rcases h.settled s with ⟨⟨w, hw⟩, -⟩ | hw
    · obtain ⟨hrest, htwo⟩ := h.across_of hs hw hr
      exact ⟨hrest, .stop htwo⟩
    · exact nomatch hq.symm.trans (Parse.collect_of_stop (hw.trans hr))
  | @last s t a hr =>
    rcases h.settled s with ⟨⟨w, hw⟩, -⟩ | hw
    · obtain ⟨hrest, htwo⟩ := h.across_of hs hw hr
      exact ⟨hrest, .last htwo⟩
    · exact nomatch hq.symm.trans (Parse.collect_of_last (hw.trans hr))
  | @more s t u a as hr hlt hrest ih =>
    rcases h.settled s with ⟨⟨w, hw⟩, -⟩ | hw
    · obtain ⟨hbehind, htwo⟩ := h.across_of hs hw hr
      exact ⟨(hrest.onward h.onward).trans hbehind,
        .more htwo (b.after_length_lt hbehind us) hrest⟩
    · -- a later round passes over the body, which is still ahead
      rw [Parse.collect_of_more (hw.trans hr) hlt] at hq
      cases hc : Parse.collect probe t with
      | ok others w => exact nomatch hq.symm.trans (Parse.bind_of_ok hc)
      | error e' w =>
        rw [Parse.bind_of_error hc] at hq
        obtain ⟨rfl, -⟩ := EStateM.Result.error.inj hq
        rcases h.collect_settled t with ⟨-, hbody⟩ | hsame
        · obtain ⟨ws, hws⟩ := h.still_ahead hs hr hbody
          obtain ⟨hbehind, htwo⟩ := ih hws hc
          refine ⟨hbehind, .more (h.before_of hs hws hr) ?_ htwo⟩
          exact (b.two_length_lt_iff ws us).2 (hs ▸ hws ▸ hlt)
        · cases hc.symm.trans (hsame.trans (Parse.collect_ok.2 hrest))

end

/-- A list is read without seeing the body, if its rounds are. -/
theorem collect {probe round : Parse (Parse.Item α)} (h : b.Blind e Anywhere probe round) :
    b.Blind e A (Parse.collect probe) (Parse.collect round) where
  onward hrun := (Parse.collect_ok.1 hrun).onward h.onward
  settled := h.collect_settled
  before _ hrun := Parse.collect_ok.2 (h.rounds_before (Parse.collect_ok.1 hrun) rfl rfl)
  across _ hq hrun := by
    obtain ⟨hrest, htwo⟩ := h.rounds_across (Parse.collect_ok.1 hrun) rfl hq
    exact ⟨hrest, Parse.collect_ok.2 htwo⟩

section

variable {probe link : α → Parse (Option α)} (h : ∀ a, b.Blind e Anywhere (probe a) (link a))

include h

theorem chain_settled (a : α) (s : Stream) :
    (∃ t, Parse.chain probe a s = .error e t) ∧ b.one [] <:+ s.rest ∨
      Parse.chain probe a s = Parse.chain link a s := by
  induction hn : s.rest.length using Nat.strongRecOn generalizing a s with
  | _ n ih =>
    rw [Parse.chain, Parse.chain]
    rcases (h a).settled s with ⟨⟨t, hq⟩, hbody⟩ | hq
    · rw [hq]
      exact .inl ⟨⟨t, rfl⟩, hbody⟩
    rw [hq]
    cases hr : link a s with
    | error e' u => exact .inr rfl
    | ok next u =>
      cases next with
      | none => exact .inr rfl
      | some c =>
        by_cases hlt : u.rest.length < s.rest.length
        · simp only [hlt, ↓reduceIte]
          exact (ih u.rest.length (hn ▸ hlt) c u rfl).imp_left
            (And.imp_right (·.trans ((h a).onward hr)))
        · simp only [hlt, ↓reduceIte]
          exact .inr trivial

theorem links_before {a c : α} {s t : Stream} (hlinks : Parse.Links link a s c t)
    {us vs : List Token} (hs : s.rest = b.one us) (ht : t.rest = b.one vs) :
    Parse.Links link a ⟨b.two us, s.depth⟩ c ⟨b.two vs, t.depth⟩ := by
  induction hlinks generalizing us with
  | stop hr => exact .stop ((h _).before_of hs ht hr)
  | more hr hlt hrest ih =>
    obtain ⟨ws, hws⟩ :=
      (h _).still_ahead hs hr ((ht ▸ b.one_suffix vs).trans (hrest.onward fun a => (h a).onward))
    refine .more ((h _).before_of hs hws hr) ?_ (ih hws ht)
    exact (b.two_length_lt_iff ws us).2 (hs ▸ hws ▸ hlt)

theorem links_across {a c : α} {s t v : Stream} (hlinks : Parse.Links link a s c t)
    {us : List Token} (hs : s.rest = b.one us) (hq : Parse.chain probe a s = .error e v) :
    t.rest <:+ b.after ∧ Parse.Links link a ⟨b.two us, s.depth⟩ c t := by
  induction hlinks generalizing us v with
  | @stop a s t hr =>
    rcases (h a).settled s with ⟨⟨w, hw⟩, -⟩ | hw
    · obtain ⟨hrest, htwo⟩ := (h a).across_of hs hw hr
      exact ⟨hrest, .stop htwo⟩
    · exact nomatch hq.symm.trans (Parse.chain_of_none (hw.trans hr))
  | @more a c d s t u hr hlt hrest ih =>
    rcases (h a).settled s with ⟨⟨w, hw⟩, -⟩ | hw
    · obtain ⟨hbehind, htwo⟩ := (h a).across_of hs hw hr
      exact ⟨(hrest.onward fun a => (h a).onward).trans hbehind,
        .more htwo (b.after_length_lt hbehind us) hrest⟩
    · rw [Parse.chain_of_some (hw.trans hr) hlt] at hq
      rcases chain_settled h c t with ⟨-, hbody⟩ | hsame
      · obtain ⟨ws, hws⟩ := (h a).still_ahead hs hr hbody
        obtain ⟨hbehind, htwo⟩ := ih hws hq
        refine ⟨hbehind, .more ((h a).before_of hs hws hr) ?_ htwo⟩
        exact (b.two_length_lt_iff ws us).2 (hs ▸ hws ▸ hlt)
      · cases hq.symm.trans (hsame.trans (Parse.chain_ok.2 hrest))

/-- A value is extended without seeing the body, if the links are made so. -/
theorem chain (a : α) : b.Blind e A (Parse.chain probe a) (Parse.chain link a) where
  onward hrun := (Parse.chain_ok.1 hrun).onward fun a => (h a).onward
  settled := chain_settled h a
  before _ hrun := Parse.chain_ok.2 (links_before h (Parse.chain_ok.1 hrun) rfl rfl)
  across _ hq hrun := by
    obtain ⟨hrest, htwo⟩ := links_across h (Parse.chain_ok.1 hrun) rfl hq
    exact ⟨hrest, Parse.chain_ok.2 htwo⟩

end

end Blind

end Bodies

end TemplateVars
