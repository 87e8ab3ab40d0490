/-
The nesting limit only ever fails.

The runs of a reader from the same tokens with some levels open and with more of them
open are compared: `Compared p ts d d'` says that both do the same, unless the run with
more levels fails because of the limit.  There is one rule for each way to put readers
together, and so one for the rules of the grammar.

* `LimitOnly.nested` — a level deeper, where the run with more levels may not get;
* `rules_limit_only` — the runs of each rule compare so;
* `result_of_deeper` — a result that is found deeper down is found, at the same place.

Design notes: at the limit a reader fails without looking at a token, but an `invalid`
token makes its own error of that failure.  The run with fewer levels has to fail there
too and with the same error, so what may stand behind a new level refuses such a token
(`Refuses`).  That it does is not gone through once more: it takes a token whenever it
succeeds, and terminal tokens are never taken.
-/
import TemplateVars.Proofs.Grammar.Congruence
import TemplateVars.Proofs.Grammar.Places

namespace TemplateVars

/-- How the runs of a reader from some tokens with `d` and with `d'` levels open compare. -/
inductive Compared {α : Type} (p : Parse α) (ts : List Token) (d d' : Nat) : Prop where
  /-- Both succeed. -/
  | ok (a : α) (rest : List Token) (fewer : p ⟨ts, d⟩ = .ok a ⟨rest, d⟩)
      (more : p ⟨ts, d'⟩ = .ok a ⟨rest, d'⟩)
  /-- Both fail. -/
  | error (e : ParseError) (rest : List Token) (fewer : p ⟨ts, d⟩ = .error e ⟨rest, d⟩)
      (more : p ⟨ts, d'⟩ = .error e ⟨rest, d'⟩)
  /-- The second one fails because of the limit. -/
  | tooDeep (e : ParseError) (t : Stream) (cause : e.cause = .tooDeep)
      (more : p ⟨ts, d'⟩ = .error e t)

/-- Whether more levels can only make a reader fail because of the limit. -/
def LimitOnly {α : Type} (p : Parse α) : Prop :=
  ∀ (ts : List Token) (d d' : Nat), d ≤ d' → Compared p ts d d'

/-- Whether a reader fails at an `invalid` token. -/
def Refuses {α : Type} (p : Parse α) : Prop :=
  ∀ (ts : List Token) (error : LexError) (cause : SyntaxError) (d : Nat),
    headKind ts = .invalid error → p ⟨ts, d⟩ = .error (errorAt ts cause) ⟨ts, d⟩

theorem advance_mk (ts : List Token) (d : Nat) : (Stream.mk ts d).advance = ⟨dropToken ts, d⟩ := by
  show Stream.mk (Stream.advance ⟨ts, d⟩).rest (Stream.advance ⟨ts, d⟩).depth = _
  rw [advance_rest, advance_depth]

/-- The error at an `invalid` token is its own. -/
theorem errorAt_invalid {ts : List Token} {error : LexError} (h : headKind ts = .invalid error)
    (cause : SyntaxError) : (errorAt ts cause).cause = .lexical error := by
  have hcurrent : (Stream.mk ts 0).current.kind = .invalid error := h
  simp only [errorAt, Stream.errorHere, hcurrent]

theorem errorAt_congr {ts : List Token} {error : LexError} (h : headKind ts = .invalid error)
    (cause cause' : SyntaxError) : errorAt ts cause = errorAt ts cause' := by
  have hcause := (errorAt_invalid h cause).trans (errorAt_invalid h cause').symm
  show ParseError.mk _ _ (errorAt ts cause).cause = ParseError.mk _ _ (errorAt ts cause').cause
  rw [hcause]

/-- The error at any other token is the one that is given. -/
theorem errorAt_valid {ts : List Token} (h : ∀ error, headKind ts ≠ .invalid error)
    (cause : SyntaxError) : (errorAt ts cause).cause = cause := by
  simp only [errorAt, Stream.errorHere]
  split
  · next error hk => exact absurd hk (h error)
  · rfl

namespace Compared

variable {α β : Type} {p : Parse α} {ts us : List Token} {d d' : Nat}

/-- A reader that goes on behind some tokens as another one does. -/
theorem resume {q : Parse α} (hfewer : p ⟨ts, d⟩ = q ⟨us, d⟩) (hmore : p ⟨ts, d'⟩ = q ⟨us, d'⟩)
    (h : Compared q us d d') : Compared p ts d d' := by
  cases h with
  | ok a rest fewer more => exact .ok a rest (hfewer.trans fewer) (hmore.trans more)
  | error e rest fewer more => exact .error e rest (hfewer.trans fewer) (hmore.trans more)
  | tooDeep e t cause more => exact .tooDeep e t cause (hmore.trans more)

theorem bind {f : α → Parse β} (hp : Compared p ts d d')
    (hf : ∀ a rest, Compared (f a) rest d d') : Compared (p >>= f) ts d d' := by
  cases hp with
  | ok a rest fewer more =>
    exact (hf a rest).resume (Parse.bind_of_ok fewer) (Parse.bind_of_ok more)
  | error e rest fewer more =>
    exact .error e rest (Parse.bind_of_error fewer) (Parse.bind_of_error more)
  | tooDeep e t cause more => exact .tooDeep e t cause (Parse.bind_of_error more)

theorem kind_bind {f : TokenKind → Parse β}
    (h : ∀ k, headKind ts = k → Compared (f k) ts d d') : Compared (Parse.kind >>= f) ts d d' :=
  (h (headKind ts) rfl).resume (Parse.bind_of_ok rfl) (Parse.bind_of_ok rfl)

/-- At the limit both runs have to fail alike where the token ahead is `invalid`. -/
theorem nested (hd : d ≤ d') (hp : Compared p ts (d + 1) (d' + 1))
    (hinvalid : ∀ error, headKind ts = .invalid error →
      p ⟨ts, d + 1⟩ = .error (errorAt ts .tooDeep) ⟨ts, d + 1⟩) :
    Compared (Parse.nested p) ts d d' := by
  by_cases hdeep : maxDepth ≤ d'
  · have hmore : Parse.nested p ⟨ts, d'⟩ = .error (errorAt ts .tooDeep) ⟨ts, d'⟩ := if_pos hdeep
    by_cases hvalid : ∀ error, headKind ts ≠ .invalid error
    · exact .tooDeep _ _ (errorAt_valid hvalid _) hmore
    · obtain ⟨error, herror⟩ := not_forall_not.1 hvalid
      refine .error _ ts ?_ hmore
      by_cases hdeep' : maxDepth ≤ d
      · exact if_pos hdeep'
      · unfold Parse.nested
        rw [if_neg hdeep', hinvalid error herror]
        rfl
  · have hdeep' : ¬maxDepth ≤ d := fun h => hdeep (Nat.le_trans h hd)
    unfold Parse.nested
    cases hp with
    | ok a rest fewer more =>
      refine .ok a rest ?_ ?_
      · rw [if_neg hdeep', fewer]
        rfl
      · rw [if_neg hdeep, more]
        rfl
    | error e rest fewer more =>
      refine .error e rest ?_ ?_
      · rw [if_neg hdeep', fewer]
        rfl
      · rw [if_neg hdeep, more]
        rfl
    | tooDeep e t cause more =>
      refine .tooDeep e { t with depth := t.depth - 1 } cause ?_
      rw [if_neg hdeep, more]

end Compared

namespace LimitOnly

variable {α β : Type} {p : Parse α}

/-- A reader that does not see how many levels are open. -/
theorem of_blind (h : ∀ ts, (∃ a rest, ∀ d, p ⟨ts, d⟩ = .ok a ⟨rest, d⟩) ∨
    ∃ e rest, ∀ d, p ⟨ts, d⟩ = .error e ⟨rest, d⟩) : LimitOnly p := by
  intro ts d d' _
  rcases h ts with ⟨a, rest, h⟩ | ⟨e, rest, h⟩
  · exact .ok a rest (h d) (h d')
  · exact .error e rest (h d) (h d')

theorem pure (a : α) : LimitOnly (Pure.pure a) := of_blind fun ts => .inl ⟨a, ts, fun _ => rfl⟩

theorem fail (cause : SyntaxError) : LimitOnly (Parse.fail cause : Parse α) :=
  of_blind fun ts => .inr ⟨errorAt ts cause, ts, fun _ => rfl⟩

theorem ahead (n : Nat) : LimitOnly (Parse.ahead n) :=
  of_blind fun ts => .inl ⟨(Stream.mk ts 0).ahead n, ts, fun _ => rfl⟩

theorem advance : LimitOnly Parse.advance :=
  of_blind fun ts => .inl ⟨(), dropToken ts, fun d => by rw [Parse.advance, advance_mk]⟩

theorem expect (wanted : Expected) : LimitOnly (Parse.expect wanted) := by
  refine of_blind fun ts => ?_
  by_cases h : headKind ts = .punct wanted.mark
  · refine .inl ⟨(), dropToken ts, fun d => ?_⟩
    rw [← advance_mk]
    exact if_pos h
  · exact .inr ⟨errorAt ts (.expected wanted (headKind ts)), ts, fun _ => if_neg h⟩

theorem bind {f : α → Parse β} (hp : LimitOnly p) (hf : ∀ a, LimitOnly (f a)) :
    LimitOnly (p >>= f) :=
  fun ts d d' hd => (hp ts d d' hd).bind fun a rest => hf a rest d d' hd

/-- What follows may see the tokens ahead, but not how many levels are open. -/
theorem get_bind {f : Stream → Parse β} (hf : ∀ s, LimitOnly (f s))
    (hblind : ∀ ts d d', f ⟨ts, d⟩ = f ⟨ts, d'⟩) : LimitOnly (MonadState.get >>= f) := by
  intro ts d d' hd
  have hmore : (MonadState.get >>= f) ⟨ts, d'⟩ = f ⟨ts, d⟩ ⟨ts, d'⟩ := by
    rw [hblind ts d d']
    rfl
  exact (hf ⟨ts, d⟩ ts d d' hd).resume (Parse.bind_of_ok rfl) hmore

theorem nested (hp : LimitOnly p) (hrefuses : Refuses p) : LimitOnly (Parse.nested p) :=
  fun ts d d' hd => .nested hd (hp ts (d + 1) (d' + 1) (Nat.succ_le_succ hd))
    fun error h => hrefuses ts error .tooDeep (d + 1) h

theorem skipBlock : LimitOnly Rule.skipBlock := by
  rw [Rule.skipBlock_eq]
  refine .bind (.expect _) fun _ => of_blind fun ts => ?_
  rcases hclose : closeBlock 0 ts with ⟨closed, rest⟩
  cases closed with
  | true => exact .inl ⟨(), rest, fun d => by rw [Rule.restOfBlock, hclose]⟩
  | false =>
    exact .inr ⟨errorAt rest .unterminatedBody, rest, fun d => by rw [Rule.restOfBlock, hclose]⟩

theorem collect {round : Parse (Parse.Item α)} (h : LimitOnly round) :
    LimitOnly (Parse.collect round) := by
  intro ts d d' hd
  -- on the tokens ahead: both runs go on behind the same ones
  induction hn : ts.length using Nat.strongRecOn generalizing ts with
  | _ n ih =>
    cases h ts d d' hd with
    | error e rest fewer more =>
      exact .error e rest (Parse.collect_of_error fewer) (Parse.collect_of_error more)
    | tooDeep e t cause more => exact .tooDeep e t cause (Parse.collect_of_error more)
    | ok item rest fewer more =>
      cases item with
      | stop => exact .ok [] rest (Parse.collect_of_stop fewer) (Parse.collect_of_stop more)
      | last a => exact .ok [a] rest (Parse.collect_of_last fewer) (Parse.collect_of_last more)
      | more a =>
        by_cases hlt : rest.length < ts.length
        · exact ((ih rest.length (hn ▸ hlt) rest rfl).bind fun as us =>
            (pure (a :: as)) us d d' hd).resume (Parse.collect_of_more fewer hlt)
              (Parse.collect_of_more more hlt)
        · exact .error _ rest (Parse.collect_of_stuck fewer hlt) (Parse.collect_of_stuck more hlt)

theorem chain {link : α → Parse (Option α)} (h : ∀ a, LimitOnly (link a)) (a : α) :
    LimitOnly (Parse.chain link a) := by
  intro ts d d' hd
  -- as for lists; the value so far changes from link to link
  induction hn : ts.length using Nat.strongRecOn generalizing ts a with
  | _ n ih =>
    cases h a ts d d' hd with
    | error e rest fewer more =>
      exact .error e rest (Parse.chain_of_error fewer) (Parse.chain_of_error more)
    | tooDeep e t cause more => exact .tooDeep e t cause (Parse.chain_of_error more)
    | ok next rest fewer more =>
      cases next with
      | none => exact .ok a rest (Parse.chain_of_none fewer) (Parse.chain_of_none more)
      | some b =>
        by_cases hlt : rest.length < ts.length
        · exact (ih rest.length (hn ▸ hlt) b rest rfl).resume (Parse.chain_of_some fewer hlt)
            (Parse.chain_of_some more hlt)
        · exact .error _ rest (Parse.chain_of_stuck fewer hlt) (Parse.chain_of_stuck more hlt)

/-- A reader that fails at an `invalid` token fails there alike however many levels are
open. -/
theorem refuses (h : LimitOnly p) (hp : p.Refusing) : Refuses p := by
  intro ts error cause d hts
  obtain ⟨cause', t, hrun, ht⟩ := hp ⟨ts, d⟩ error hts
  have herror : t.errorHere cause' = errorAt ts cause :=
    calc t.errorHere cause'
      _ = errorAt t.rest cause' := rfl
      _ = errorAt ts cause' := by rw [ht]
      _ = errorAt ts cause := errorAt_congr hts cause' cause
  cases h ts d d (Nat.le_refl d) with
  | ok a rest fewer _ => exact nomatch fewer.symm.trans hrun
  | error e rest fewer _ =>
    obtain ⟨he, rfl⟩ := EStateM.Result.error.inj (fewer.symm.trans hrun)
    obtain rfl : rest = ts := ht
    rw [fewer, he, herror]
  | tooDeep e u hcause more =>
    obtain ⟨rfl, -⟩ := EStateM.Result.error.inj (more.symm.trans hrun)
    rw [herror, errorAt_invalid hts] at hcause
    exact nomatch hcause

/-- Whether more levels can only make a reader fail because of the limit, where the token
ahead is the mark that it is known to be, if any. -/
def At (k : Option TokenKind) ⦃α : Type⦄ (_ p : Parse α) : Prop :=
  ∀ (ts : List Token) (d d' : Nat), (∀ m, k = some (.punct m) → headKind ts = .punct m) →
    d ≤ d' → Compared p ts d d'

theorem at_iff {q : Parse α} {k : Option TokenKind} (hk : ∀ m, k ≠ some (.punct m)) :
    At k q p ↔ LimitOnly p :=
  ⟨fun h ts d d' hd => h ts d d' (fun m hm => absurd hm (hk m)) hd,
    fun h ts d d' _ hd => h ts d d' hd⟩

theorem at_none {q : Parse α} : At none q p ↔ LimitOnly p := at_iff nofun

/-- The limit only fails readers put together of those that it only fails. -/
theorem congruence : Congruence At where
  anywhere h ts d d' _ hd := h ts d d' nofun hd
  pure a := at_none.2 (pure a)
  fail _ := at_none.2 (fail _)
  advance := at_none.2 advance
  bind h hf ts d d' hk hd := (h ts d d' hk hd).bind fun a rest => hf a rest d d' nofun hd
  kind h _ ts d d' _ hd := .kind_bind fun k hk =>
    h k ts d d' (fun _ hm => hk.trans (Option.some.inj hm)) hd
  nested h hq := at_none.2 (.nested (at_none.1 h) ((at_none.1 h).refuses hq))
  nested_at m h ts _ _ hm hd := .nested hd (h ts _ _ nofun (Nat.succ_le_succ hd))
    fun _ hbad => nomatch (hm m rfl).symm.trans hbad
  collect h _ := at_none.2 (.collect (at_none.1 h))
  chain h _ a := at_none.2 (.chain (fun a => at_none.1 (h a)) a)

end LimitOnly

/-! ### The grammar -/

/-- Whether more levels can only make the rules fail because of the limit. -/
def Rules.Limited (r : Rules) : Prop := ∀ c : RuleCall, LimitOnly (r.read c)

namespace Rules.Limited

variable {r : Rules}

theorem related_iff : r.Limited ↔ r.Related LimitOnly.At r :=
  forall_congr' fun c => (LimitOnly.at_iff c.ahead?_ne_mark).symm

theorem spreadable (h : r.Limited) : LimitOnly (Rule.spreadable r) :=
  LimitOnly.at_none.1 (LimitOnly.congruence.spreadable (related_iff.1 h))

/-- No rule looks at the number of open levels. -/
theorem lookahead (h : r.Limited) : r.Lookahead LimitOnly.At r :=
  LimitOnly.congruence.lookahead (related_iff.1 h) (fun n => LimitOnly.at_none.2 (.ahead n))
    fun _ hf => LimitOnly.at_none.2
      (.get_bind (fun _ => LimitOnly.at_none.1 (hf _)) fun _ _ _ => rfl)

end Rules.Limited

/-- More levels can only make a rule of the grammar fail because of the limit. -/
theorem rules_limit_only (n : Nat) : (Grammar.rules n).Limited :=
  Rules.Limited.related_iff.2 (LimitOnly.congruence.rules (LimitOnly.at_none.2 (.fail _))
    (LimitOnly.at_none.2 .skipBlock)
    (fun _ h _ => (Rules.Limited.related_iff.2 h).lookahead) n)

/-- The nesting limit never changes a result.  Unless a rule fails with some levels open
because they are too many, it does the same with fewer of them open: it reads the same
value or fails with the same error, and stops at the same token. -/
theorem result_of_deeper (c : RuleCall) (ts : List Token) {d d' : Nat} (hd : d ≤ d')
    (h : ∀ e t, (Grammar.grammar.read c).run ⟨ts, d'⟩ = (.error e, t) →
      e.cause.message ≠ "Expression nested too deeply") :
    ∃ result rest, (Grammar.grammar.read c).run ⟨ts, d'⟩ = (result, ⟨rest, d'⟩) ∧
      (Grammar.grammar.read c).run ⟨ts, d⟩ = (result, ⟨rest, d⟩) := by
  cases rules_limit_only _ c ts d d' hd with
  | ok a rest fewer more =>
    exact ⟨.ok a, rest, Parse.run_ok_iff.2 more, Parse.run_ok_iff.2 fewer⟩
  | error e rest fewer more =>
    exact ⟨.error e, rest, Parse.run_error_iff.2 more, Parse.run_error_iff.2 fewer⟩
  | tooDeep e t cause more =>
    refine absurd ?_ (h e t (Parse.run_error_iff.2 more))
    rw [cause]
    rfl

/-- The operand of `!` is a token too many at the limit and no expression in front of it;
that it is no token at all is reported in both cases. -/
theorem result_of_deeper_invalid :
    let tokens : List Token := [.bare (.punct .bang), .bare (.invalid .unterminatedString)]
    (∀ e t, (Grammar.grammar.read .unary).run ⟨tokens, maxDepth⟩ = (.error e, t) →
      e.cause.message ≠ "Expression nested too deeply") ∧
    ∃ result rest, (Grammar.grammar.read .unary).run ⟨tokens, maxDepth⟩ =
        (result, ⟨rest, maxDepth⟩) ∧
      (Grammar.grammar.read .unary).run ⟨tokens, 0⟩ = (result, ⟨rest, 0⟩) := by
  intro tokens
  have hdeep : ∀ e t, (Grammar.grammar.read .unary).run ⟨tokens, maxDepth⟩ = (.error e, t) →
      e.cause.message ≠ "Expression nested too deeply" := by
    intro e t hrun
    have hrun' : (Grammar.grammar.read .unary).run ⟨tokens, maxDepth⟩ =
        (.error ⟨1, 1, .lexical .unterminatedString⟩, ⟨tokens.tail, maxDepth⟩) := by
      with_unfolding_all rfl
    rw [hrun'] at hrun
    obtain ⟨he, -⟩ := Prod.mk.inj hrun
    rw [← Except.error.inj he]
    decide
  exact ⟨hdeep, result_of_deeper .unary tokens (Nat.zero_le _) hdeep⟩

end TemplateVars
