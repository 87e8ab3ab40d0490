/-
Runs over tokens that go on in two ways.

`Endings` are two ways for tokens to go on: with their end, or with a separator and
whatever is behind it.  A separator goes on with no operand: it is a mark that closes
something or stands between expressions, or what follows a substitution of a template.
`E.Alike within A p p'` says of two readers that `p'` does in front of the separator what
`p` does in front of the end, if `p` succeeds there; of tokens that are taken to the last
one nothing is said if `within` is set.  There is one rule for each way to put readers
together:

* `Endings.Alike.bind` — one reader after the other;
* `Endings.Alike.collect`, `Endings.Alike.chain` — repetition;
* `Endings.Alike.before_expect` — what is taken before a mark that has to be there;
* `Endings.agrees` — whether `=>` follows a group is settled by tokens whose brackets are
  nested.

Design notes: a mark that closes something may be the separator.  A reader that looks for
one at its end, as a list does, finds it there only in front of the separator; but then
the run in front of the end fails, or another mark is taken before it is over.
-/
import TemplateVars.Proofs.Grammar.Matching
import TemplateVars.Proofs.Grammar.Taking
import TemplateVars.Proofs.Token.Extension

namespace TemplateVars

open Takes (Anywhere At)

/-- The marks that go on with no operand. -/
def separatorMarks : List Punctuator := .comma :: separators.map (·.2)

/-- Whether a token goes on with no operand: it stands between expressions or closes what is
around them. -/
def TokenKind.Separates : TokenKind → Prop
  | punct m => m ∈ separatorMarks
  | templateMiddle _ => True
  | templateTail _ => True
  | _ => False

/-- What is shown of each separator holds of all. -/
theorem separators_all {P : TokenKind → Prop} (hmiddle : ∀ cooked, P (.templateMiddle cooked))
    (htail : ∀ cooked, P (.templateTail cooked)) (hcomma : P (.punct .comma))
    (hsemicolon : P (.punct .semicolon)) (hparen : P (.punct .rightParen))
    (hbracket : P (.punct .rightBracket)) (hbrace : P (.punct .rightBrace))
    (hcolon : P (.punct .colon)) : ∀ k : TokenKind, k.Separates → P k := by
  intro k hk
  unfold TokenKind.Separates at hk
  split at hk
  · next m =>
    have hall : ∀ m ∈ separatorMarks, P (.punct m) := by simp [separatorMarks, separators, *]
    exact hall m hk
  · exact hmiddle _
  · exact htail _
  · exact hk.elim

/-! ### Two ways to go on -/

/-- Two ways for tokens to go on. -/
structure Endings where
  final : Token
  next : Token
  more : List Token
  final_eof : final.kind = .eof
  next_separates : next.kind.Separates

namespace Endings

/-- Tokens up to the end. -/
def short (E : Endings) (us : List Token) : List Token := us ++ [E.final]

/-- Tokens with a separator behind them. -/
def long (E : Endings) (us : List Token) : List Token := us ++ E.next :: E.more

theorem short_length (E : Endings) (us : List Token) : (E.short us).length = us.length + 1 :=
  List.length_append

theorem long_length (E : Endings) (us : List Token) :
    (E.long us).length = us.length + (E.more.length + 1) :=
  List.length_append

/-- The tokens before the end are fewer in front of it and in front of the separator. -/
theorem long_length_lt (E : Endings) {us vs : List Token}
    (h : (E.short us).length < (E.short vs).length) : (E.long us).length < (E.long vs).length := by
  rw [short_length, short_length] at h
  rw [long_length, long_length]
  omega

/-- Neither way goes on with a mark that separates nothing. -/
theorem final_ne (E : Endings) (m : Punctuator) : E.final.kind ≠ .punct m :=
  fun h => nomatch E.final_eof.symm.trans h

theorem next_ne (E : Endings) {m : Punctuator} (hm : m ∉ separatorMarks) :
    E.next.kind ≠ .punct m := by
  intro h
  have hnext := E.next_separates
  rw [h] at hnext
  exact hm hnext

/-- A mark that is no separator is not there in front of either end. -/
theorem next_unmarked (E : Endings) {within : Bool} {A : List Token → Prop} {m : Punctuator}
    (hm : m ∉ separatorMarks) : within = true ∨ E.next.kind ≠ .punct m ∨ ¬A [] :=
  .inr (.inl (E.next_ne hm))

/-- Whether it makes no difference how tokens go on to the search for an arrow from any
place among them. -/
structure Agrees (E : Endings) (us : List Token) : Prop where
  live : Live us
  arrow : ∀ vs, vs <:+ us → arrowFollows (E.short vs) = arrowFollows (E.long vs)

theorem Agrees.suffix {E : Endings} {us vs : List Token} (h : E.Agrees us) (hvs : vs <:+ us) :
    E.Agrees vs where
  live := fun t ht => h.live t (hvs.mem ht)
  arrow := fun ws hws => h.arrow ws (hws.trans hvs)

/-- Tokens whose brackets are nested settle whether `=>` follows a group. -/
theorem agrees {E : Endings} {us : List Token} (hlive : Live us) (h : Nested brackets (kinds us)) :
    E.Agrees us where
  live := hlive
  arrow := by
    rintro vs ⟨front, rfl⟩
    cases vs with
    | nil =>
      exact (arrowFollows_other (E.final_ne _)).trans
        (arrowFollows_other (E.next_ne (by decide))).symm
    | cons v vs =>
      by_cases hv : v.kind = .punct .leftParen
      · -- the group is closed among the tokens, and what follows it stands there or behind them
        rw [kinds_append, kinds_cons, hv] at h
        have hparen : (Punctuator.leftParen, Punctuator.rightParen) ∈ brackets := by decide
        obtain ⟨inner, closing, after, hclosing, hinner, hvs⟩ := h.closes rfl hparen
        obtain ⟨ts, rest, rfl, hts, hrest⟩ := List.map_eq_append_iff.1 hvs
        obtain ⟨u, rest, rfl, hu, -⟩ := List.map_eq_cons_iff.1 hrest
        obtain rfl : closing = .rightParen := only_parentheses _ hclosing rfl
        rw [← hts] at hinner
        have harrow : ∀ behind, arrowFollows ((v :: (ts ++ u :: rest)) ++ behind) =
            arrowNext (rest ++ behind) := by
          intro behind
          rw [List.cons_append, List.append_assoc]
          exact arrowFollows_enclosed hinner.balanced hv hu _
        rw [short, long, harrow, harrow]
        cases rest with
        | nil =>
          exact (arrowNext_other (E.final_ne _)).trans
            (arrowNext_other (E.next_ne (by decide))).symm
        | cons t rest => rfl
      · exact (arrowFollows_other hv).trans (arrowFollows_other hv).symm

/-- Whether tokens are left, if a run has to stay within them. -/
def Inside (within : Bool) (vs : List Token) : Prop := within = true → vs ≠ []

theorem Inside.suffix {within : Bool} {vs ws : List Token} (h : Inside within ws)
    (hws : ws <:+ vs) : Inside within vs :=
  fun hwithin hnil => h hwithin (List.suffix_nil.1 (hnil ▸ hws))

/-- A run of `p` that succeeds in front of the end, and a run of `p'` in front of the
separator. -/
def Alike (E : Endings) (within : Bool) {α : Type} (A : List Token → Prop) (p p' : Parse α) :
    Prop :=
  ∀ (us : List Token) (d : Nat) (a : α) (t : Stream), E.Agrees us → A us →
    p ⟨E.short us, d⟩ = .ok a t → ∃ vs, vs <:+ us ∧ t.rest = E.short vs ∧
      (Inside within vs → p' ⟨E.long us, d⟩ = .ok a ⟨E.long vs, t.depth⟩)

/-- A reader that does in front of the separator what it does in front of the end. -/
abbrev Keeps (E : Endings) (within : Bool) {α : Type} (A : List Token → Prop) (p : Parse α) :
    Prop :=
  E.Alike within A p p

/-- Whether a reader fails at the end of the tokens. -/
def Stuck (E : Endings) {α : Type} (p : Parse α) : Prop := ∀ d a t, p ⟨E.short [], d⟩ ≠ .ok a t

namespace Stuck

variable {E : Endings} {α β : Type} {p : Parse α}

theorem bind {f : α → Parse β} (h : E.Stuck p) : E.Stuck (p >>= f) := by
  intro d b t hrun
  obtain ⟨a, u, hps, -⟩ := Parse.bind_ok.1 hrun
  exact h d a u hps

theorem expect {wanted : Expected} : E.Stuck (Parse.expect wanted) := by
  intro d b t hrun
  have hne : (Stream.mk (E.short []) d).current.kind ≠ .punct wanted.mark := E.final_ne _
  rw [Parse.expect, if_neg hne] at hrun
  cases hrun

theorem fail {cause : SyntaxError} : E.Stuck (Parse.fail cause : Parse α) := nofun

theorem kind_bind {f : TokenKind → Parse β} (h : E.Stuck (f .eof)) :
    E.Stuck (Parse.kind >>= f) := by
  intro d b t hrun
  change f E.final.kind _ = _ at hrun
  rw [E.final_eof] at hrun
  exact h d b t hrun

theorem check_bind {m : Punctuator} {f : Bool → Parse β} (h : E.Stuck (f false)) :
    E.Stuck (Parse.check m >>= f) := by
  intro d b t hrun
  change f (decide (E.final.kind = .punct m)) _ = _ at hrun
  rw [decide_eq_false (E.final_ne m)] at hrun
  exact h d b t hrun

theorem accept_bind {m : Punctuator} {f : Bool → Parse β} (h : E.Stuck (f false)) :
    E.Stuck (Parse.accept m >>= f) := by
  rw [Parse.accept_bind_eq]
  exact check_bind h

/-- A reader that has to take something fails at the end. -/
theorem of_takes {Q : α → List TokenKind → Prop} (h : Takes Anywhere p Q) (hQ : ∀ a, ¬Q a []) :
    E.Stuck p := by
  intro d a t hrun
  have htakes := h ⟨E.short [], d⟩ trivial
  rw [hrun] at htakes
  obtain ⟨taken, hrest, hlive, hq⟩ := htakes
  cases taken with
  | nil => exact hQ a hq
  | cons u taken =>
    obtain ⟨rfl, -⟩ := List.cons.inj hrest
    have hterminal := hlive _ (List.mem_cons_self ..)
    rw [E.final_eof] at hterminal
    exact nomatch hterminal

end Stuck

namespace Alike

variable {E : Endings} {within : Bool} {α β : Type} {A B : List Token → Prop} {p p' : Parse α}
  {f f' : α → Parse β}

theorem weaken (h : E.Alike within A p p') (hA : ∀ us, B us → A us) : E.Alike within B p p' :=
  fun us d a t hus hB => h us d a t hus (hA us hB)

theorem anywhere (h : E.Alike within Anywhere p p') : E.Alike within A p p' :=
  h.weaken fun _ _ => trivial

theorem pure {a : α} : E.Alike within A (Pure.pure a) (Pure.pure a) := by
  rintro us d _ _ - - ⟨⟩
  exact ⟨us, List.suffix_refl us, rfl, fun _ => rfl⟩

theorem fail {cause : SyntaxError} : E.Alike within A (Parse.fail cause) p' :=
  fun _ _ _ _ _ _ h => nomatch h

/-- One reader after the other.  If the second one fails at the end, then what the first
one takes is followed by something. -/
theorem bind_stuck {inner : Bool} (hp : E.Alike inner A p p')
    (hf : ∀ a, E.Alike within
      (fun vs => ∃ us d d', A us ∧ p ⟨E.short us, d⟩ = .ok a ⟨E.short vs, d'⟩)
      (f a) (f' a)) (hinner : inner = within ∨ ∀ a, E.Stuck (f a)) :
    E.Alike within A (p >>= f) (p' >>= f') := by
  intro us d b t hus hA hrun
  obtain ⟨a, ⟨rest, depth⟩, hps, hrun⟩ := Parse.bind_ok.1 hrun
  obtain ⟨vs, hvs, rfl, hrun'⟩ := hp us d a _ hus hA hps
  obtain ⟨ws, hws, hrest, hrun''⟩ :=
    hf a vs depth b t (hus.suffix hvs) ⟨us, d, depth, hA, hps⟩ hrun
  refine ⟨ws, hws.trans hvs, hrest, fun hwithin => ?_⟩
  have hinside : Inside inner vs := by
    rcases hinner with rfl | hstuck
    · exact hwithin.suffix hws
    · rintro - rfl
      exact hstuck a depth b t hrun
  exact (Parse.bind_of_ok (hrun' hinside)).trans (hrun'' hwithin)

theorem bind (hp : E.Alike within A p p')
    (hf : ∀ a, E.Alike within
      (fun vs => ∃ us d d', A us ∧ p ⟨E.short us, d⟩ = .ok a ⟨E.short vs, d'⟩)
      (f a) (f' a)) :
    E.Alike within A (p >>= f) (p' >>= f') :=
  hp.bind_stuck hf (.inl rfl)

/-- One reader after another that may start anywhere. -/
theorem andThen (hp : E.Alike within A p p') (hf : ∀ a, E.Alike within Anywhere (f a) (f' a)) :
    E.Alike within A (p >>= f) (p' >>= f') :=
  hp.bind fun a => (hf a).anywhere

theorem ite {c c' : Prop} [Decidable c] [Decidable c'] {q q' : Parse α} (hc : c ↔ c')
    (hp : c → E.Alike within A p p') (hq : ¬c → E.Alike within A q q') :
    E.Alike within A (if c then p else q) (if c' then p' else q') := by
  by_cases h : c
  · rw [if_pos h, if_pos (hc.1 h)]
    exact hp h
  · rw [if_neg h, if_neg fun h' => h (hc.2 h')]
    exact hq h

/-! ### Looking at tokens -/

theorem kind_bind {f f' : TokenKind → Parse β}
    (hmore : ∀ k, k.isTerminal = false → E.Alike within (fun us => A us ∧ At k us) (f k) (f' k))
    (hend : E.Alike within (fun us => A us ∧ us = []) (f .eof) (f' E.next.kind)) :
    E.Alike within A (Parse.kind >>= f) (Parse.kind >>= f') := by
  intro us d b t hus hA hrun
  cases us with
  | nil =>
    change f E.final.kind _ = _ at hrun
    rw [E.final_eof] at hrun
    exact hend [] d b t hus ⟨hA, rfl⟩ hrun
  | cons u us =>
    exact hmore u.kind (hus.live u (List.mem_cons_self ..)) (u :: us) d b t hus ⟨hA, rfl⟩ hrun

/-- What is done with another kind of token is done with a separator. -/
theorem kind_bind_other {f : TokenKind → Parse β}
    (h : ∀ k, E.Keeps within (fun us => A us ∧ At k us) (f k))
    (hother : ∀ k : TokenKind, k.Separates → f k = f .eof) :
    E.Keeps within A (Parse.kind >>= f) := by
  refine kind_bind (fun k _ => h k) ?_
  rw [hother _ E.next_separates]
  refine (h .eof).weaken ?_
  rintro us ⟨hA, rfl⟩
  exact ⟨hA, rfl⟩

theorem ahead_bind {n : Nat} {f f' : Token → Parse β} (hn : ∀ us, A us → n ≤ us.length)
    (hmore : ∀ t, t.kind.isTerminal = false →
      E.Alike within (fun us => A us ∧ us[n]? = some t) (f t) (f' t))
    (hend : E.Alike within (fun us => A us ∧ us.length = n) (f E.final) (f' E.next)) :
    E.Alike within A (Parse.ahead n >>= f) (Parse.ahead n >>= f') := by
  intro us d b t hus hA hrun
  change f ((Stream.mk (E.short us) d).ahead n) _ = _ at hrun
  show ∃ vs, vs <:+ us ∧ t.rest = E.short vs ∧ (Inside within vs →
    f' ((Stream.mk (E.long us) d).ahead n) _ = _)
  cases hget : us[n]? with
  | some u =>
    have hlt : n < us.length := (List.getElem?_eq_some_iff.1 hget).1
    have hlive : u.kind.isTerminal = false := hus.live u (List.mem_of_getElem? hget)
    have hshort : (Stream.mk (E.short us) d).ahead n = u := by
      rw [Stream.ahead, short, List.getElem?_append_left hlt, hget]
    have hlong : (Stream.mk (E.long us) d).ahead n = u := by
      rw [Stream.ahead, long, List.getElem?_append_left hlt, hget]
    rw [hshort] at hrun
    rw [hlong]
    exact hmore u hlive us d b t hus ⟨hA, hget⟩ hrun
  | none =>
    have hlength : us.length = n := Nat.le_antisymm (List.getElem?_eq_none_iff.1 hget) (hn us hA)
    have hshort : (Stream.mk (E.short us) d).ahead n = E.final := by
      rw [Stream.ahead, short, List.getElem?_append_right (Nat.le_of_eq hlength), hlength,
        Nat.sub_self]
      rfl
    have hlong : (Stream.mk (E.long us) d).ahead n = E.next := by
      rw [Stream.ahead, long, List.getElem?_append_right (Nat.le_of_eq hlength), hlength,
        Nat.sub_self]
      rfl
    rw [hshort] at hrun
    rw [hlong]
    exact hend us d b t hus ⟨hA, hlength⟩ hrun

theorem get_bind {f f' : Stream → Parse β}
    (h : ∀ us d, E.Agrees us → A us →
      E.Alike within (· = us) (f ⟨E.short us, d⟩) (f' ⟨E.long us, d⟩)) :
    E.Alike within A (MonadState.get >>= f) (MonadState.get >>= f') :=
  fun us d b t hus hA => h us d hus hA us d b t hus rfl

/-- At the end nothing is said of a run that stays within the tokens. -/
theorem within_nil (h : E.Alike within A p p') {q : Parse α} (hwithin : within = true) :
    E.Alike within (fun us => A us ∧ us = []) p q := by
  rintro us d a t hus ⟨hA, rfl⟩ hrun
  obtain ⟨vs, hvs, hrest, -⟩ := h [] d a t hus hA hrun
  exact ⟨vs, hvs, hrest, fun hne => absurd (List.suffix_nil.1 hvs) (hne hwithin)⟩

/-- A mark that may be the separator is looked for only within the tokens, or where
there are some. -/
theorem check_bind {m : Punctuator} {f f' : Bool → Parse β}
    (hm : within = true ∨ E.next.kind ≠ .punct m ∨ ¬A [])
    (hyes : E.Alike within (fun us => A us ∧ At (.punct m) us) (f true) (f' true))
    (hno : E.Alike within A (f false) (f' false)) :
    E.Alike within A (Parse.check m >>= f) (Parse.check m >>= f') := by
  show E.Alike within A (Parse.kind >>= fun k => f (decide (k = .punct m)))
    (Parse.kind >>= fun k => f' (decide (k = .punct m)))
  refine kind_bind (fun k hk => ?_) ?_
  · by_cases h : k = .punct m
    · rw [decide_eq_true h]
      exact hyes.weaken fun us hus => ⟨hus.1, h ▸ hus.2⟩
    · rw [decide_eq_false h]
      exact hno.weaken fun us hus => hus.1
  · rw [decide_eq_false (fun h => nomatch h)]
    by_cases h : E.next.kind = .punct m
    · rcases hm with hwithin | hm | hA
      · exact hno.within_nil hwithin
      · exact absurd h hm
      · rintro us d a t - ⟨hus, rfl⟩
        exact absurd hus hA
    · rw [decide_eq_false h]
      exact hno.weaken fun us hus => hus.1

/-! ### Taking tokens -/

/-- A token is taken where there is one. -/
theorem advance_then {f f' : Unit → Parse β} (hA : ¬A [])
    (hf : E.Alike within (fun us => ∃ u, A (u :: us)) (f ()) (f' ())) :
    E.Alike within A (Parse.advance >>= f) (Parse.advance >>= f') := by
  intro us d b t hus hAus hrun
  cases us with
  | nil => exact absurd hAus hA
  | cons u us =>
    have hu := hus.live u (List.mem_cons_self ..)
    change f () (Stream.mk (u :: E.short us) d).advance = _ at hrun
    rw [advance_cons hu] at hrun
    obtain ⟨vs, hvs, hrest, hrun'⟩ :=
      hf us d b t (hus.suffix (List.suffix_cons u us)) ⟨u, hAus⟩ hrun
    refine ⟨vs, hvs.trans (List.suffix_cons u us), hrest, fun hwithin => ?_⟩
    show f' () (Stream.mk (u :: E.long us) d).advance = _
    rw [advance_cons hu]
    exact hrun' hwithin

theorem advance_bind {f f' : Unit → Parse β} (hA : ¬A [])
    (hf : E.Alike within Anywhere (f ()) (f' ())) :
    E.Alike within A (Parse.advance >>= f) (Parse.advance >>= f') :=
  advance_then hA hf.anywhere

theorem accept_bind {m : Punctuator} {f f' : Bool → Parse β}
    (hm : within = true ∨ E.next.kind ≠ .punct m ∨ ¬A [])
    (hyes : E.Alike within Anywhere (f true) (f' true))
    (hno : E.Alike within A (f false) (f' false)) :
    E.Alike within A (Parse.accept m >>= f) (Parse.accept m >>= f') := by
  rw [Parse.accept_bind_eq, Parse.accept_bind_eq]
  exact check_bind hm (advance_bind (fun h => nomatch h.2) hyes) hno

theorem expect_bind {wanted : Expected} {f f' : Unit → Parse β}
    (hf : E.Alike within Anywhere (f ()) (f' ())) :
    E.Alike within A (Parse.expect wanted >>= f) (Parse.expect wanted >>= f') := by
  rw [Parse.expect_bind_eq, Parse.expect_bind_eq]
  refine kind_bind (fun k hk => ite Iff.rfl (fun hmark => ?_) fun _ => fail) ?_
  · exact advance_bind (fun h => nomatch hmark.symm.trans h.2.symm) hf
  · rw [if_neg (fun h => nomatch h)]
    exact fail

/-- What is taken before a mark that has to be there is not taken at the end. -/
theorem before_expect {wanted : Expected} {f f' : α → Parse β} (hp : E.Alike true A p p')
    (hf : ∀ a, E.Alike within Anywhere (f a) (f' a)) :
    E.Alike within A (do
      let a ← p
      Parse.expect wanted
      f a) (do
      let a ← p'
      Parse.expect wanted
      f' a) :=
  hp.bind_stuck (fun a => expect_bind (hf a)) (.inr fun _ => .bind .expect)

/-! ### Levels, repetition and blocks -/

theorem nested (h : E.Alike within A p p') :
    E.Alike within A (Parse.nested p) (Parse.nested p') := by
  intro us d a t hus hA hrun
  obtain ⟨hdepth, u, hp, rfl⟩ := Parse.nested_ok.1 hrun
  obtain ⟨vs, hvs, hrest, hrun'⟩ := h us (d + 1) a u hus hA hp
  exact ⟨vs, hvs, hrest, fun hwithin => Parse.nested_ok.2 ⟨hdepth, _, hrun' hwithin, rfl⟩⟩

/-- A list is read by the same rounds. -/
theorem collect {round round' : Parse (Parse.Item α)} (h : E.Alike within Anywhere round round') :
    E.Alike within A (Parse.collect round) (Parse.collect round') := by
  refine anywhere ?_
  rintro us d as t hus - hrun
  have hrounds := Parse.collect_ok.1 hrun
  generalize hs : Stream.mk (E.short us) d = s at hrounds
  clear hrun
  induction hrounds generalizing us d with
  | stop hr =>
    subst hs
    obtain ⟨vs, hvs, hrest, hround⟩ := h us d _ _ hus trivial hr
    exact ⟨vs, hvs, hrest, fun hwithin => Parse.collect_of_stop (hround hwithin)⟩
  | last hr =>
    subst hs
    obtain ⟨vs, hvs, hrest, hround⟩ := h us d _ _ hus trivial hr
    exact ⟨vs, hvs, hrest, fun hwithin => Parse.collect_of_last (hround hwithin)⟩
  | @more s t u a as hr hlt _ ih =>
    subst hs
    obtain ⟨rest, depth⟩ := t
    obtain ⟨vs, hvs, rfl, hround⟩ := h us d _ _ hus trivial hr
    obtain ⟨ws, hws, hrest, hothers⟩ := ih vs depth (hus.suffix hvs) rfl
    refine ⟨ws, hws.trans hvs, hrest, fun hwithin => ?_⟩
    rw [Parse.collect_of_more (hround (hwithin.suffix hws)) (E.long_length_lt hlt),
      Parse.bind_of_ok (hothers hwithin)]
    rfl

/-- A value is extended by the same links. -/
theorem chain {link link' : α → Parse (Option α)}
    (h : ∀ a, E.Alike within Anywhere (link a) (link' a)) (a : α) :
    E.Alike within A (Parse.chain link a) (Parse.chain link' a) := by
  refine anywhere ?_
  rintro us d b t hus - hrun
  have hlinks := Parse.chain_ok.1 hrun
  generalize hs : Stream.mk (E.short us) d = s at hlinks
  clear hrun
  induction hlinks generalizing us d with
  | stop hr =>
    subst hs
    obtain ⟨vs, hvs, hrest, hlink⟩ := h _ us d _ _ hus trivial hr
    exact ⟨vs, hvs, hrest, fun hwithin => Parse.chain_of_none (hlink hwithin)⟩
  | @more a b c s t u hr hlt _ ih =>
    subst hs
    obtain ⟨rest, depth⟩ := t
    obtain ⟨vs, hvs, rfl, hlink⟩ := h _ us d _ _ hus trivial hr
    obtain ⟨ws, hws, hrest, hothers⟩ := ih vs depth (hus.suffix hvs) rfl
    refine ⟨ws, hws.trans hvs, hrest, fun hwithin => ?_⟩
    exact (Parse.chain_of_some (hlink (hwithin.suffix hws)) (E.long_length_lt hlt)).trans
      (hothers hwithin)

/-- The brace that closes a block is found among the tokens before their end. -/
theorem closeBlock_ends {opened : Nat} {us rest : List Token}
    (h : closeBlock opened (E.short us) = (true, rest)) :
    ∃ vs, vs <:+ us ∧ rest = E.short vs ∧ closeBlock opened (E.long us) = (true, E.long vs) := by
  rcases closeBlock_append h with ⟨vs, hvs, hrest, hmore⟩ | ⟨n, hn⟩
  · exact ⟨vs, hvs, hrest, hmore _⟩
  · rw [closeBlock, E.final_eof, if_neg (by rintro ⟨⟩), if_neg (by rintro ⟨⟩)] at hn
    cases hn

theorem skipBlock : E.Alike within A Rule.skipBlock Rule.skipBlock := by
  rw [Rule.skipBlock_eq]
  refine expect_bind ?_
  rintro us d a t hus - hrun
  rw [Rule.restOfBlock] at hrun ⊢
  cases hclose : closeBlock 0 (E.short us) with
  | mk closed rest =>
    rw [hclose] at hrun
    cases closed with
    | false => cases hrun
    | true =>
      obtain ⟨vs, hvs, rfl, hlong⟩ := closeBlock_ends hclose
      cases hrun
      refine ⟨vs, hvs, rfl, fun _ => ?_⟩
      rw [hlong]

/-- A reader that fails at the end has to be followed up only where there are tokens. -/
theorem of_stuck (hp : E.Stuck p) (h : E.Alike within (fun us => A us ∧ us ≠ []) p p') :
    E.Alike within A p p' := by
  intro us d a t hus hA hrun
  cases us with
  | nil => exact absurd hrun (hp d a t)
  | cons u us => exact h (u :: us) d a t hus ⟨hA, List.cons_ne_nil u us⟩ hrun

end Alike

end Endings

end TemplateVars
