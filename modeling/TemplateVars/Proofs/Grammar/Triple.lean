/-
Triples for readers of tokens.

`Triple E A p B` says of a reader `p`: from tokens of which `A` holds it either
returns a value and leaves tokens of which `B` holds, or fails with an error and
leaves tokens of which `E` holds.  There is one rule for each way to put readers
together:

* `Triple.bind` — one reader after the other;
* `Triple.nested` — a level deeper, which may also fail with `tooDeep`;
* `Triple.collect`, `Triple.chain` — repetition, by what one round keeps.

When such a reader succeeds is told by `Parse.bind_ok`, `Parse.nested_ok`, `Parse.collect_ok`
and `Parse.chain_ok`, of a list by its `Parse.Rounds` and of a value by its `Parse.Links`.

Design notes: the assertions see the tokens ahead and not the number of open
levels, so a rule of the grammar has one triple for all depths.  No reader
catches an error, which is why `E` is the same for all parts of a reader.
-/
import TemplateVars.Grammar.Parse

namespace TemplateVars

/-- The kind of the first token ahead. -/
def headKind (ts : List Token) : TokenKind := (ts.headD Stream.endToken).kind

/-- A token that is a word is not terminal. -/
theorem TokenKind.live_of_word {k : TokenKind} {word : String} (h : k.keywordText? = some word) :
    k.isTerminal = false := by
  cases k with
  | invalid => exact nomatch h
  | eof => exact nomatch h
  | _ => rfl

/-- A token that stands for an infix operator is not terminal. -/
theorem TokenKind.live_of_infix {k : TokenKind} {p : Nat} {op : InfixOperator}
    (h : k.infixOperator? = some (p, op)) : k.isTerminal = false := by
  cases k with
  | invalid => exact nomatch h
  | eof => exact nomatch h
  | _ => rfl

/-- The tokens ahead once the first one is taken, unless it is terminal. -/
def dropToken (ts : List Token) : List Token := if (headKind ts).isTerminal then ts else ts.tail

/-- The error that something is wrong with the first token ahead. -/
def errorAt (ts : List Token) (cause : SyntaxError) : ParseError :=
  (Stream.mk ts 0).errorHere cause

@[simp] theorem headKind_cons (t : Token) (ts : List Token) : headKind (t :: ts) = t.kind := rfl

theorem dropToken_cons {t : Token} (ts : List Token) (h : t.kind.isTerminal = false) :
    dropToken (t :: ts) = ts := by
  rw [dropToken, headKind_cons, if_neg (by rw [h]; exact Bool.false_ne_true)]
  rfl

theorem advance_rest (s : Stream) : s.advance.rest = dropToken s.rest := by
  unfold Stream.advance dropToken
  by_cases h : s.current.kind.isTerminal = true
  · rw [if_pos h]
    exact (if_pos h).symm
  · rw [if_neg h]
    exact (if_neg h).symm

theorem advance_cons {u : Token} (hu : u.kind.isTerminal = false) (rest : List Token) (d : Nat) :
    (Stream.mk (u :: rest) d).advance = ⟨rest, d⟩ := by
  rw [Stream.advance, show (Stream.mk (u :: rest) d).current = u from rfl, hu]
  rfl

theorem advance_suffix (s : Stream) : s.advance.rest <:+ s.rest := by
  rw [advance_rest, dropToken]
  split
  · exact List.suffix_refl _
  · exact List.tail_suffix _

/-- Passes over a block whose opening brace is taken. -/
def Rule.restOfBlock : Parse Unit := fun s =>
  match closeBlock 0 s.rest with
  | (true, rest) => .ok () { s with rest := rest }
  | (false, rest) => .error (errorAt rest .unterminatedBody) { s with rest := rest }

theorem Rule.skipBlock_eq :
    Rule.skipBlock = (do Parse.expect .bodyOpen; Rule.restOfBlock) := by
  refine congrArg (Parse.expect .bodyOpen >>= ·) (funext fun _ => funext fun s => ?_)
  show (do
    set { s with rest := (closeBlock 0 s.rest).2 }
    if (closeBlock 0 s.rest).1 then return else Parse.fail .unterminatedBody : Parse Unit) s = _
  rw [Rule.restOfBlock]
  rcases closeBlock 0 s.rest with ⟨_ | _, rest⟩ <;> rfl

namespace Parse

variable {α β : Type}

theorem run_ok_iff {p : Parse α} {s t : Stream} {a : α} :
    p.run s = (.ok a, t) ↔ p s = .ok a t := by
  unfold run
  cases p s <;> simp

theorem run_error_iff {p : Parse α} {s t : Stream} {e : ParseError} :
    p.run s = (.error e, t) ↔ p s = .error e t := by
  unfold run
  cases p s <;> simp

theorem bind_of_ok {p : Parse α} {f : α → Parse β} {s t : Stream} {a : α} (h : p s = .ok a t) :
    (p >>= f) s = f a t := by
  show EStateM.bind p f s = _
  rw [EStateM.bind, h]

theorem bind_of_error {p : Parse α} {f : α → Parse β} {s t : Stream} {e : ParseError}
    (h : p s = .error e t) : (p >>= f) s = .error e t := by
  show EStateM.bind p f s = _
  rw [EStateM.bind, h]

theorem bind_ok {p : Parse α} {f : α → Parse β} {s t : Stream} {b : β} :
    (p >>= f) s = .ok b t ↔ ∃ a u, p s = .ok a u ∧ f a u = .ok b t := by
  cases hp : p s with
  | ok a u =>
    rw [bind_of_ok hp]
    refine ⟨fun h => ⟨a, u, rfl, h⟩, fun ⟨c, v, hc, h⟩ => ?_⟩
    cases hc
    exact h
  | error e u =>
    rw [bind_of_error hp]
    exact ⟨nofun, fun ⟨_, _, hc, _⟩ => nomatch hc⟩

/-- A mark is accepted by looking at it and taking it. -/
theorem accept_bind_eq (m : Punctuator) (f : Bool → Parse β) : accept m >>= f =
    check m >>= fun there => if there = true then advance >>= fun _ => f true
      else f false := by
  funext s
  show EStateM.bind (accept m) f s =
    (if decide (s.current.kind = .punct m) = true then _ else _ : Parse β) s
  rw [EStateM.bind, accept]
  by_cases h : s.current.kind = .punct m
  · rw [if_pos h, decide_eq_true h]
    rfl
  · rw [if_neg h, decide_eq_false h]
    rfl

theorem expect_bind_eq (wanted : Expected) (f : Unit → Parse β) : expect wanted >>= f =
    kind >>= fun k => if k = .punct wanted.mark then advance >>= f
      else fail (.expected wanted k) := by
  funext s
  show EStateM.bind (expect wanted) f s =
    (if s.current.kind = .punct wanted.mark then _ else _ : Parse β) s
  rw [EStateM.bind, expect]
  by_cases h : s.current.kind = .punct wanted.mark
  · rw [if_pos h, if_pos h]
    rfl
  · rw [if_neg h, if_neg h]
    rfl

/-! ### Levels -/

theorem nested_ok {p : Parse α} {s t : Stream} {a : α} :
    nested p s = .ok a t ↔ s.depth < maxDepth ∧
      ∃ u, p { s with depth := s.depth + 1 } = .ok a u ∧ t = { u with depth := u.depth - 1 } := by
  rw [nested]
  split
  · next hdeep => exact ⟨nofun, fun h => absurd h.1 (Nat.not_lt.2 hdeep)⟩
  · next hdeep =>
    cases hp : p { s with depth := s.depth + 1 } with
    | ok b u =>
      refine ⟨fun h => ?_, fun ⟨_, v, hv, ht⟩ => ?_⟩
      · cases h
        exact ⟨Nat.lt_of_not_le hdeep, u, rfl, rfl⟩
      · cases hv
        rw [ht]
    | error e u => exact ⟨nofun, nofun⟩

theorem nested_error {p : Parse α} {s t : Stream} {e : ParseError} (h : s.depth < maxDepth) :
    nested p s = .error e t ↔ ∃ u,
      p { s with depth := s.depth + 1 } = .error e u ∧ t = { u with depth := u.depth - 1 } := by
  rw [nested, if_neg (Nat.not_le.2 h)]
  cases hp : p { s with depth := s.depth + 1 } with
  | ok b u => exact ⟨nofun, nofun⟩
  | error e' u =>
    refine ⟨fun h => ?_, fun ⟨v, hv, ht⟩ => ?_⟩
    · cases h
      exact ⟨u, rfl, rfl⟩
    · cases hv
      rw [ht]

/-! ### Rounds and links -/

section

variable {round : Parse (Item α)} {link : α → Parse (Option α)} {s t : Stream} {a b : α}
  {e : ParseError}

theorem collect_of_error (h : round s = .error e t) : collect round s = .error e t := by
  rw [collect, h]

theorem collect_of_stop (h : round s = .ok .stop t) : collect round s = .ok [] t := by
  rw [collect, h]

theorem collect_of_last (h : round s = .ok (.last a) t) : collect round s = .ok [a] t := by
  rw [collect, h]

/-- A list goes on behind a round that takes a token. -/
theorem collect_of_more (h : round s = .ok (.more a) t) (hlt : t.rest.length < s.rest.length) :
    collect round s = (do return a :: (← collect round) : Parse (List α)) t := by
  rw [collect, h]
  simp only [hlt, ↓reduceIte]
  cases hrest : collect round t with
  | ok as u => rw [bind_of_ok hrest]; rfl
  | error e u => exact (bind_of_error hrest).symm

/-- A list that would go on forever is out of steps. -/
theorem collect_of_stuck (h : round s = .ok (.more a) t)
    (hstuck : ¬t.rest.length < s.rest.length) :
    collect round s = .error (t.errorHere .outOfSteps) t := by
  rw [collect, h]
  exact if_neg hstuck

theorem chain_of_error (h : link a s = .error e t) : chain link a s = .error e t := by
  rw [chain, h]

theorem chain_of_none (h : link a s = .ok none t) : chain link a s = .ok a t := by
  rw [chain, h]

/-- A value is extended further behind a link that takes a token. -/
theorem chain_of_some (h : link a s = .ok (some b) t) (hlt : t.rest.length < s.rest.length) :
    chain link a s = chain link b t := by
  rw [chain, h]
  exact if_pos hlt

theorem chain_of_stuck (h : link a s = .ok (some b) t)
    (hstuck : ¬t.rest.length < s.rest.length) :
    chain link a s = .error (t.errorHere .outOfSteps) t := by
  rw [chain, h]
  exact if_neg hstuck

end

/-- The rounds by which a list is read. -/
inductive Rounds (round : Parse (Item α)) : Stream → List α → Stream → Prop where
  | stop {s t : Stream} (h : round s = .ok .stop t) : Rounds round s [] t
  | last {s t : Stream} {a : α} (h : round s = .ok (.last a) t) : Rounds round s [a] t
  | more {s t u : Stream} {a : α} {as : List α} (h : round s = .ok (.more a) t)
      (hlt : t.rest.length < s.rest.length) (hrest : Rounds round t as u) :
      Rounds round s (a :: as) u

theorem collect_ok {round : Parse (Item α)} {s t : Stream} {as : List α} :
    collect round s = .ok as t ↔ Rounds round s as t := by
  refine ⟨fun h => ?_, fun h => ?_⟩
  · fun_induction collect round s generalizing as t with
    | case1 => exact nomatch h
    | case2 s u hr => cases h; exact .stop hr
    | case3 s a u hr => cases h; exact .last hr
    | case4 s a u hr hlt others v hrest ih => cases h; exact .more hr hlt (ih hrest)
    | case5 => exact nomatch h
    | case6 => exact nomatch h
  · induction h with
    | stop hr => exact collect_of_stop hr
    | last hr => exact collect_of_last hr
    | more hr hlt _ ih =>
      rw [collect_of_more hr hlt, bind_of_ok ih]
      rfl

/-- A list is read onward if each of its rounds is. -/
theorem Rounds.onward {round : Parse (Item α)}
    (h : ∀ {s t : Stream} {item : Item α}, round s = .ok item t → t.rest <:+ s.rest)
    {s t : Stream} {as : List α} (hrounds : Rounds round s as t) : t.rest <:+ s.rest := by
  induction hrounds with
  | stop hr => exact h hr
  | last hr => exact h hr
  | more hr _ _ ih => exact ih.trans (h hr)

/-- The links by which a value is extended. -/
inductive Links (link : α → Parse (Option α)) : α → Stream → α → Stream → Prop where
  | stop {a : α} {s t : Stream} (h : link a s = .ok none t) : Links link a s a t
  | more {a b c : α} {s t u : Stream} (h : link a s = .ok (some b) t)
      (hlt : t.rest.length < s.rest.length) (hrest : Links link b t c u) : Links link a s c u

theorem chain_ok {link : α → Parse (Option α)} {a b : α} {s t : Stream} :
    chain link a s = .ok b t ↔ Links link a s b t := by
  refine ⟨fun h => ?_, fun h => ?_⟩
  · fun_induction chain link a s with
    | case1 => exact nomatch h
    | case2 a s u hr => cases h; exact .stop hr
    | case3 a s c u hr hlt ih => exact .more hr hlt (ih h)
    | case4 => exact nomatch h
  · induction h with
    | stop hr => exact chain_of_none hr
    | more hr hlt _ ih => exact (chain_of_some hr hlt).trans ih

/-- A value is extended onward if each link is made so. -/
theorem Links.onward {link : α → Parse (Option α)}
    (h : ∀ (a : α) {s t : Stream} {next : Option α}, link a s = .ok next t → t.rest <:+ s.rest)
    {a b : α} {s t : Stream} (hlinks : Links link a s b t) : t.rest <:+ s.rest := by
  induction hlinks with
  | stop hr => exact h _ hr
  | more hr _ _ ih => exact ih.trans (h _ hr)

end Parse

/-- What a reader does from tokens that satisfy `A`: `B` describes its success
and `E` its failure. -/
def Triple {α : Type} (E : ParseError → List Token → Prop) (A : List Token → Prop)
    (p : Parse α) (B : α → List Token → Prop) : Prop :=
  ∀ s : Stream, A s.rest → match p s with
    | .ok a t => B a t.rest
    | .error e t => E e t.rest

namespace Triple

variable {α β : Type} {E : ParseError → List Token → Prop} {A : List Token → Prop}

theorem mono {A' : List Token → Prop} {B B' : α → List Token → Prop} {p : Parse α}
    (h : Triple E A p B) (hA : ∀ ts, A' ts → A ts) (hB : ∀ a ts, B a ts → B' a ts) :
    Triple E A' p B' := by
  intro s hs
  have hp := h s (hA _ hs)
  cases hps : p s with
  | ok a t => rw [hps] at hp; exact hB a _ hp
  | error e t => rw [hps] at hp; exact hp

theorem run_ok {B : α → List Token → Prop} {p : Parse α} (h : Triple E A p B) {s t : Stream}
    {a : α} (hs : A s.rest) (hrun : p.run s = (.ok a, t)) : B a t.rest := by
  have hp := h s hs
  rw [Parse.run_ok_iff.1 hrun] at hp
  exact hp

theorem run_error {B : α → List Token → Prop} {p : Parse α} (h : Triple E A p B) {s t : Stream}
    {error : ParseError} (hs : A s.rest) (hrun : p.run s = (.error error, t)) :
    E error t.rest := by
  have hp := h s hs
  rw [Parse.run_error_iff.1 hrun] at hp
  exact hp

theorem pure {a : α} {B : α → List Token → Prop} (h : ∀ ts, A ts → B a ts) :
    Triple E A (Pure.pure a) B :=
  fun _ hs => h _ hs

theorem bind {B : α → List Token → Prop} {C : β → List Token → Prop} {p : Parse α}
    {f : α → Parse β} (hp : Triple E A p B) (hf : ∀ a, Triple E (B a) (f a) C) :
    Triple E A (p >>= f) C := by
  intro s hs
  have h := hp s hs
  cases hps : p s with
  | ok a t =>
    rw [hps] at h
    rw [Parse.bind_of_ok hps]
    exact hf a t h
  | error e t =>
    rw [hps] at h
    rw [Parse.bind_of_error hps]
    exact h

theorem ite {c : Prop} [Decidable c] {B : α → List Token → Prop} {p q : Parse α}
    (hp : c → Triple E A p B) (hq : ¬c → Triple E A q B) :
    Triple E A (if c then p else q) B := by
  by_cases hc : c
  · rw [if_pos hc]
    exact hp hc
  · rw [if_neg hc]
    exact hq hc

theorem fail {cause : SyntaxError} {B : α → List Token → Prop}
    (h : ∀ ts, A ts → E (errorAt ts cause) ts) : Triple E A (Parse.fail cause) B :=
  fun _ hs => h _ hs

theorem kind {B : TokenKind → List Token → Prop} (h : ∀ ts, A ts → B (headKind ts) ts) :
    Triple E A Parse.kind B :=
  fun _ hs => h _ hs

theorem ahead {n : Nat} {B : Token → List Token → Prop}
    (h : ∀ ts, A ts → B ((Stream.mk ts 0).ahead n) ts) : Triple E A (Parse.ahead n) B :=
  fun _ hs => h _ hs

theorem get {B : Stream → List Token → Prop} (h : ∀ s : Stream, A s.rest → B s s.rest) :
    Triple E A MonadState.get B :=
  fun s hs => h s hs

theorem advance {B : Unit → List Token → Prop} (h : ∀ ts, A ts → B () (dropToken ts)) :
    Triple E A Parse.advance B := by
  intro s hs
  have := h _ hs
  rw [← advance_rest] at this
  exact this

theorem check {mark : Punctuator} {B : Bool → List Token → Prop}
    (h : ∀ ts, A ts → B (headKind ts = .punct mark) ts) : Triple E A (Parse.check mark) B :=
  fun _ hs => h _ hs

theorem accept {mark : Punctuator} {B : Bool → List Token → Prop}
    (hyes : ∀ ts, A ts → headKind ts = .punct mark → B true (dropToken ts))
    (hno : ∀ ts, A ts → headKind ts ≠ .punct mark → B false ts) :
    Triple E A (Parse.accept mark) B := by
  intro s hs
  unfold Parse.accept
  by_cases h : s.current.kind = .punct mark
  · have := hyes _ hs h
    rw [← advance_rest] at this
    rw [if_pos h]
    exact this
  · rw [if_neg h]
    exact hno _ hs h

theorem expect {wanted : Expected} {B : Unit → List Token → Prop}
    (hyes : ∀ ts, A ts → headKind ts = .punct wanted.mark → B () (dropToken ts))
    (hno : ∀ ts, A ts → E (errorAt ts (.expected wanted (headKind ts))) ts) :
    Triple E A (Parse.expect wanted) B := by
  intro s hs
  unfold Parse.expect
  by_cases h : s.current.kind = .punct wanted.mark
  · have := hyes _ hs h
    rw [← advance_rest] at this
    rw [if_pos h]
    exact this
  · rw [if_neg h]
    exact hno _ hs

theorem nested {p : Parse α} {B : α → List Token → Prop} (hp : Triple E A p B)
    (hdeep : ∀ ts, A ts → E (errorAt ts .tooDeep) ts) : Triple E A (Parse.nested p) B := by
  intro s hs
  unfold Parse.nested
  by_cases h : maxDepth ≤ s.depth
  · rw [if_pos h]
    exact hdeep _ hs
  · rw [if_neg h]
    have := hp { s with depth := s.depth + 1 } hs
    cases hps : p { s with depth := s.depth + 1 } with
    | ok a t => rw [hps] at this; exact this
    | error e t => rw [hps] at this; exact this

/-- A block of statements is passed over up to the brace that closes it. -/
theorem skipBlock {B : Unit → List Token → Prop}
    (hclosed : ∀ ts rest, A ts → headKind ts = .punct .leftBrace →
      closeBlock 0 (dropToken ts) = (true, rest) → B () rest)
    (hopen : ∀ ts, A ts → E (errorAt ts (.expected .bodyOpen (headKind ts))) ts)
    (hlost : ∀ ts rest, A ts → headKind ts = .punct .leftBrace →
      closeBlock 0 (dropToken ts) = (false, rest) → E (errorAt rest .unterminatedBody) rest) :
    Triple E A Rule.skipBlock B := by
  rw [Rule.skipBlock_eq]
  refine bind (B := fun _ ts => ∃ before, A before ∧ headKind before = .punct .leftBrace ∧
    ts = dropToken before) (expect (fun ts hts hk => ⟨ts, hts, hk, rfl⟩) hopen) fun _ => ?_
  -- what the search finds depends on the tokens behind the opening brace alone
  rintro s ⟨ts, hts, hk, hs⟩
  have hyes := hclosed ts (closeBlock 0 s.rest).2 hts hk
  have hno := hlost ts (closeBlock 0 s.rest).2 hts hk
  rw [← hs] at hyes hno
  rw [Rule.restOfBlock]
  cases hc : closeBlock 0 s.rest with
  | mk closed rest =>
    rw [hc] at hyes hno
    cases closed with
    | true => exact hyes rfl
    | false => exact hno rfl

/-- A list is read by rounds that keep `A` as long as more is to come. -/
theorem collect {round : Parse (Parse.Item α)} {B : List α → List Token → Prop}
    (hround : Triple E A round fun item ts =>
      match item with
      | .stop => B [] ts
      | .last a => B [a] ts
      | .more a => A ts ∧ ∀ as us, B as us → B (a :: as) us)
    (hstuck : ∀ ts, A ts → E (errorAt ts .outOfSteps) ts) :
    Triple E A (Parse.collect round) B := by
  intro s hs
  have h := hround s hs
  fun_induction Parse.collect round s with
  | case1 s e t hr => rwa [hr] at h
  | case2 s t hr => rwa [hr] at h
  | case3 s a t hr => rwa [hr] at h
  | case4 s a t hr hlt as u hrest ih =>
    rw [hr] at h
    have hrec := ih h.1 (hround t h.1)
    rw [hrest] at hrec
    exact h.2 as _ hrec
  | case5 s a t hr hlt e u hrest ih =>
    rw [hr] at h
    have hrec := ih h.1 (hround t h.1)
    rwa [hrest] at hrec
  | case6 s a t hr =>
    rw [hr] at h
    exact hstuck _ h.1

/-- A value is extended by links that keep `A`. -/
theorem chain {link : α → Parse (Option α)} {A : α → List Token → Prop}
    {B : α → List Token → Prop}
    (hlink : ∀ a, Triple E (A a) (link a) fun next ts =>
      match next with
      | none => B a ts
      | some b => A b ts)
    (hstuck : ∀ a ts, A a ts → E (errorAt ts .outOfSteps) ts) (a : α) :
    Triple E (A a) (Parse.chain link a) B := by
  intro s hs
  have h := hlink a s hs
  fun_induction Parse.chain link a s with
  | case1 a s e t hr => rwa [hr] at h
  | case2 a s t hr => rwa [hr] at h
  | case3 a s b t hr hlt ih =>
    rw [hr] at h
    exact ih h (hlink b t h)
  | case4 a s b t hr =>
    rw [hr] at h
    exact hstuck b _ h

end Triple

end TemplateVars
