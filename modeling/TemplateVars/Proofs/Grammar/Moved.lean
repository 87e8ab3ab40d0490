/-
Reading tokens that are moved to other places of a text.

`Parallel n p p'` says that two readers end alike at tokens and at these tokens moved: both with
the same value, or both with some failure.  A reader is `Steady` if it ends so itself.  There is
one rule for each way to put readers together, and one lemma for each rule of the grammar.

* `Moved.arrowFollows_eq` — whether `=>` follows a group does not depend on the places;
* `rules_steady` — each rule ends alike at tokens that are moved;
* `parse_moved` — so the same expression is read, or none;
* `parse_around` — blanks around a text change neither.

Design notes: in front of a text it makes no difference whether the first token is in a new line,
since that is asked only of a token behind another one.  The only reader that asks it of the next
token is `Rule.postfixUpdate`, and in front of that an operand has been read.  At the end of a
text it makes no difference because the token there is terminal.  Failures are all the same here.
-/
import TemplateVars.Proofs.Grammar.Alike
import TemplateVars.Proofs.Grammar.Limit
import TemplateVars.Proofs.Token.Around

namespace TemplateVars

/-- Whether a token is another one that is moved. -/
inductive Token.Moved (t t' : Token) : Prop where
  | last (h : SameEnd t.kind t'.kind)
  | live (hlive : t.kind.isTerminal = false) (hkind : t'.kind = t.kind)
      (hline : t'.newlineBefore = t.newlineBefore)

/-- What holds of no last token holds of one that is moved if it holds of the token. -/
theorem Token.Moved.iff {P : TokenKind → Bool → Prop} {t t' : Token} (h : t.Moved t')
    (hP : ∀ k newline, k.isTerminal = true → ¬P k newline) :
    P t'.kind t'.newlineBefore ↔ P t.kind t.newlineBefore := by
  cases h with
  | last h => exact iff_of_false (hP _ _ h.terminal.2) (hP _ _ h.terminal.1)
  | live _ hkind hline => rw [hkind, hline]

/-! ### Arrows and blocks at the end -/

theorem arrowNext_terminal {t : Token} (h : t.kind.isTerminal = true) (ts : List Token) :
    arrowNext (t :: ts) = false := by
  refine arrowNext_other fun hkind => ?_
  rw [hkind] at h
  exact nomatch h

theorem arrowAfterClosing_terminal {t : Token} (h : t.kind.isTerminal = true) (opened : Nat)
    (ts : List Token) : arrowAfterClosing opened (t :: ts) = false := by
  rw [arrowAfterClosing]
  cases hkind : t.kind <;> rw [hkind] at h <;> first | rfl | cases h

theorem closeBlock_terminal {t : Token} (h : t.kind.isTerminal = true) (opened : Nat)
    (ts : List Token) : closeBlock opened (t :: ts) = (false, t :: ts) := by
  rw [closeBlock]
  cases hkind : t.kind <;> rw [hkind] at h <;> first | rfl | cases h

namespace Moved

variable {n : Nat} {ts ts' : List Token}

theorem length_eq (h : Moved n ts ts') : ts'.length = ts.length := by
  induction h with
  | last => rfl
  | live _ _ _ _ _ ih => rw [List.length_cons, List.length_cons, ih]

/-- Fewer tokens are left of those that are moved if fewer are left of the tokens. -/
theorem lt_iff {us us' : List Token} (h : Moved n ts ts') (hus : Moved n us us') :
    us'.length < ts'.length ↔ us.length < ts.length := by
  rw [h.length_eq, hus.length_eq]

/-- Behind the first of the tokens all are moved as such. -/
theorem getElem? (h : Moved n ts ts') {i : Nat} (hi : ts.length - i < n) :
    (ts[i]? = none ∧ ts'[i]? = none) ∨
      ∃ t t', ts[i]? = some t ∧ ts'[i]? = some t' ∧ t.Moved t' := by
  induction h generalizing i with
  | last h =>
    cases i with
    | zero => exact .inr ⟨_, _, rfl, rfl, .last h⟩
    | succ i => exact .inl ⟨rfl, rfl⟩
  | live hlive hkind hle hline _ ih =>
    cases i with
    | zero => exact .inr ⟨_, _, rfl, rfl, .live hlive hkind (hline hi)⟩
    | succ i =>
      rw [List.getElem?_cons_succ, List.getElem?_cons_succ]
      exact ih (by rw [List.length_cons] at hi; omega)

theorem getLast (h : Moved n ts ts') (u : Token) : (ts.getLastD u).Moved (ts'.getLastD u) := by
  induction h generalizing u with
  | last h => exact .last h
  | live _ _ _ _ h ih =>
    -- the last token is behind this one, since some token is
    rw [List.getLastD_cons, List.getLastD_cons]
    cases h <;> exact ih _

/-- Behind what a reader takes no token is the first one. -/
theorem taken_lt {α : Type} {p : Parse α} {Q : α → List TokenKind → Prop} {a : α} {d d' : Nat}
    {us : List Token} (h : Moved n ts ts') (hp : Takes Takes.Anywhere p Q) (hQ : ∀ a, ¬Q a [])
    (hrun : p ⟨ts, d⟩ = .ok a ⟨us, d'⟩) : us.length < n := by
  have htakes := hp ⟨ts, d⟩ trivial
  rw [hrun] at htakes
  obtain ⟨taken, hrest, hlive, hq⟩ := htakes
  cases taken with
  | nil => exact absurd hq (hQ a)
  | cons t taken =>
    change ts = t :: (taken ++ us) at hrest
    generalize hmore : taken ++ us = more at hrest
    have hlen : us.length ≤ more.length := by
      rw [← hmore, List.length_append]
      exact Nat.le_add_left _ _
    subst hrest
    cases h with
    | last h => exact absurd h.terminal.1 (by rw [hlive t List.mem_cons_self]; exact nofun)
    | live _ _ hle => exact Nat.lt_of_le_of_lt hlen hle

/-- A look at a token behind the first one. -/
theorem first (h : Moved n ts ts') (hn : ts.length < n) (d : Nat) :
    ((Stream.mk ts d).ahead 0).Moved ((Stream.mk ts' d).ahead 0) := by
  cases h with
  | last h => exact .last h
  | live hlive hkind _ hline _ => exact .live hlive hkind (hline hn)

/-- A look ahead, from the second token on. -/
theorem ahead (h : Moved n ts ts') (i d : Nat) :
    ((Stream.mk ts d).ahead (i + 1)).Moved ((Stream.mk ts' d).ahead (i + 1)) := by
  have hlast := h.getLast Stream.endToken
  have hget : (ts[i + 1]? = none ∧ ts'[i + 1]? = none) ∨
      ∃ t t', ts[i + 1]? = some t ∧ ts'[i + 1]? = some t' ∧ t.Moved t' := by
    cases h with
    | last => exact .inl ⟨rfl, rfl⟩
    | live _ _ hle _ h =>
      rw [List.getElem?_cons_succ, List.getElem?_cons_succ]
      exact h.getElem? (Nat.lt_of_le_of_lt (Nat.sub_le _ _) hle)
  unfold Stream.ahead
  rcases hget with ⟨hnone, hnone'⟩ | ⟨t, t', ht, ht', hmoved⟩
  · rw [hnone, hnone']
    exact hlast
  · rw [ht, ht']
    exact hmoved

/-- The token ahead is of the same kind, or a failure in both cases. -/
theorem head (h : Moved n ts ts') : headKind ts' = headKind ts ∨
    ∃ cause cause', headKind ts = .invalid cause ∧ headKind ts' = .invalid cause' := by
  cases h with
  | last h => exact h.eq_or
  | live _ hkind => exact .inl hkind

theorem drop (h : Moved n ts ts') : Moved n (dropToken ts) (dropToken ts') := by
  cases h with
  | last h =>
    rw [dropToken, dropToken, headKind_cons, headKind_cons, h.terminal.1, h.terminal.2]
    exact .last h
  | live hlive hkind _ _ h =>
    rw [dropToken_cons _ hlive, dropToken_cons _ (hkind ▸ hlive)]
    exact h

theorem arrowNext_eq (h : Moved n ts ts') (hn : ts.length < n) : arrowNext ts' = arrowNext ts := by
  cases h with
  | last h => rw [arrowNext_terminal h.terminal.1, arrowNext_terminal h.terminal.2]
  | live _ hkind _ hline _ => rw [arrowNext, arrowNext, hkind, hline hn]

theorem arrowAfterClosing_eq (h : Moved n ts ts') (opened : Nat) :
    arrowAfterClosing opened ts' = arrowAfterClosing opened ts := by
  induction h generalizing opened with
  | last h => rw [arrowAfterClosing_terminal h.terminal.1, arrowAfterClosing_terminal h.terminal.2]
  | live _ hkind hle _ h ih =>
    rw [arrowAfterClosing, arrowAfterClosing, hkind, ih, ih, ih, h.arrowNext_eq hle]

/-- Whether `=>` follows a group does not depend on the places. -/
theorem arrowFollows_eq (h : Moved n ts ts') : arrowFollows ts' = arrowFollows ts := by
  have harrow := h.arrowAfterClosing_eq 0
  cases h with
  | last h =>
    rw [arrowFollows, arrowFollows, arrowAfterClosing_terminal h.terminal.1,
      arrowAfterClosing_terminal h.terminal.2, Bool.and_false, Bool.and_false]
  | live _ hkind => rw [arrowFollows, arrowFollows, hkind, harrow]

theorem arrowFollows_tail (h : Moved n ts ts') :
    arrowFollows (ts'.drop 1) = arrowFollows (ts.drop 1) := by
  cases h with
  | last => rfl
  | live _ _ _ _ h => exact h.arrowFollows_eq

theorem closeBlock_eq (h : Moved n ts ts') (opened : Nat) :
    (closeBlock opened ts').1 = (closeBlock opened ts).1 ∧
      Moved n (closeBlock opened ts).2 (closeBlock opened ts').2 := by
  induction h generalizing opened with
  | last h =>
    rw [closeBlock_terminal h.terminal.1, closeBlock_terminal h.terminal.2]
    exact ⟨rfl, .last h⟩
  | live hlive hkind _ _ h ih =>
    rw [closeBlock, closeBlock, hkind, hlive]
    split
    · exact ih _
    split
    · split
      · exact ⟨rfl, h⟩
      · exact ih _
    · exact ih _

end Moved

/-! ### Readers -/

/-- How two runs end: both with the same value, and tokens that are moved left, or both with a
failure. -/
inductive EndAlike (n : Nat) {α : Type} :
    EStateM.Result ParseError Stream α → EStateM.Result ParseError Stream α → Prop where
  | ok {a : α} {ts ts' : List Token} {d : Nat} (h : Moved n ts ts') :
      EndAlike n (.ok a ⟨ts, d⟩) (.ok a ⟨ts', d⟩)
  | error {e e' : ParseError} {t t' : Stream} : EndAlike n (.error e t) (.error e' t')

/-- Whether two readers end alike at tokens that are moved. -/
def Parallel (n : Nat) {α : Type} (p p' : Parse α) : Prop :=
  ∀ (ts ts' : List Token) (d : Nat), Moved n ts ts' → EndAlike n (p ⟨ts, d⟩) (p' ⟨ts', d⟩)

/-- Whether a reader ends alike wherever its tokens are. -/
abbrev Steady (n : Nat) {α : Type} (p : Parse α) : Prop := Parallel n p p

namespace Parallel

variable {n : Nat} {α β : Type} {p p' q q' : Parse α}

theorem pure (a : α) : Steady n (Pure.pure a) := fun _ _ _ h => .ok h

theorem fail (cause cause' : SyntaxError) :
    Parallel n (Parse.fail cause : Parse α) (Parse.fail cause') := fun _ _ _ _ => .error

theorem advance : Steady n Parse.advance := by
  intro ts ts' d h
  rw [Parse.advance, Parse.advance, advance_mk, advance_mk]
  exact .ok h.drop

/-- A reader behind another one, from some tokens on. -/
theorem bind_from {f f' : α → Parse β} {ts ts' : List Token} {d : Nat}
    (hp : EndAlike n (p ⟨ts, d⟩) (p' ⟨ts', d⟩))
    (hf : ∀ a us us' d', p ⟨ts, d⟩ = .ok a ⟨us, d'⟩ → Moved n us us' →
      EndAlike n (f a ⟨us, d'⟩) (f' a ⟨us', d'⟩)) :
    EndAlike n ((p >>= f) ⟨ts, d⟩) ((p' >>= f') ⟨ts', d⟩) := by
  generalize hrun : p ⟨ts, d⟩ = r at hp
  generalize hrun' : p' ⟨ts', d⟩ = r' at hp
  cases hp with
  | error => rw [Parse.bind_of_error hrun, Parse.bind_of_error hrun']; exact .error
  | ok h => rw [Parse.bind_of_ok hrun, Parse.bind_of_ok hrun']; exact hf _ _ _ _ hrun h

theorem bind {f f' : α → Parse β} (hp : Parallel n p p') (hf : ∀ a, Parallel n (f a) (f' a)) :
    Parallel n (p >>= f) (p' >>= f') :=
  fun _ _ _ h => bind_from (hp _ _ _ h) fun a _ _ _ _ hmore => hf a _ _ _ hmore

theorem ite {c c' : Prop} [Decidable c] [Decidable c'] (hc : c' ↔ c) (hp : Parallel n p p')
    (hq : Parallel n q q') : Parallel n (if c then p else q) (if c' then p' else q') := by
  by_cases h : c
  · rw [if_pos h, if_pos (hc.2 h)]
    exact hp
  · rw [if_neg h, if_neg fun h' => h (hc.1 h')]
    exact hq

/-! ### Looking at tokens -/

/-- What is done with one failure has to be done with any other. -/
theorem kind_bind {f f' : TokenKind → Parse β} (h : ∀ k, Parallel n (f k) (f' k))
    (hinvalid : ∀ cause cause', Parallel n (f (.invalid cause)) (f' (.invalid cause'))) :
    Parallel n (Parse.kind >>= f) (Parse.kind >>= f') := by
  intro ts ts' d hmoved
  show EndAlike n (f (headKind ts) ⟨ts, d⟩) (f' (headKind ts') ⟨ts', d⟩)
  rcases hmoved.head with heq | ⟨cause, cause', hk, hk'⟩
  · rw [heq]
    exact h _ _ _ _ hmoved
  · rw [hk, hk']
    exact hinvalid _ _ _ _ _ hmoved

/-- A look ahead, from the second token on. -/
theorem ahead_bind {i : Nat} {f f' : Token → Parse β}
    (h : ∀ t t' : Token, t.Moved t' → Parallel n (f t) (f' t')) :
    Parallel n (Parse.ahead (i + 1) >>= f) (Parse.ahead (i + 1) >>= f') :=
  fun ts ts' d hmoved => h _ _ (hmoved.ahead i d) ts ts' d hmoved

/-- A look at a token behind the first one. -/
theorem first_bind {f f' : Token → Parse β} {ts ts' : List Token} {d : Nat}
    (hmoved : Moved n ts ts') (hn : ts.length < n)
    (h : ∀ t t' : Token, t.Moved t' → Parallel n (f t) (f' t')) :
    EndAlike n ((Parse.ahead 0 >>= f) ⟨ts, d⟩) ((Parse.ahead 0 >>= f') ⟨ts', d⟩) :=
  h _ _ (hmoved.first hn d) ts ts' d hmoved

theorem get_bind {f f' : Stream → Parse β}
    (h : ∀ s s' : Stream, Moved n s.rest s'.rest → Parallel n (f s) (f' s')) :
    Parallel n (MonadState.get >>= f) (MonadState.get >>= f') :=
  fun ts ts' d hmoved => h ⟨ts, d⟩ ⟨ts', d⟩ hmoved ts ts' d hmoved

theorem expect_bind {wanted : Expected} {f f' : Unit → Parse β} (h : Parallel n (f ()) (f' ())) :
    Parallel n (Parse.expect wanted >>= f) (Parse.expect wanted >>= f') := by
  rw [Parse.expect_bind_eq, Parse.expect_bind_eq]
  refine kind_bind (fun k => .ite Iff.rfl (.bind .advance fun _ => h) (.fail _ _)) fun _ _ => ?_
  exact .ite ⟨nofun, nofun⟩ (.bind .advance fun _ => h) (.fail _ _)

/-! ### Levels, repetition and blocks -/

theorem nested (h : Parallel n p p') : Parallel n (Parse.nested p) (Parse.nested p') := by
  intro ts ts' d hmoved
  rw [Parse.nested, Parse.nested]
  by_cases hdeep : maxDepth ≤ d
  · rw [if_pos hdeep, if_pos hdeep]
    exact .error
  · rw [if_neg hdeep, if_neg hdeep]
    have hp := h ts ts' (d + 1) hmoved
    generalize p ⟨ts, d + 1⟩ = r at hp ⊢
    generalize p' ⟨ts', d + 1⟩ = r' at hp ⊢
    cases hp with
    | error => exact .error
    | ok hmore => exact .ok hmore

theorem skipBlock : Steady n Rule.skipBlock := by
  rw [Rule.skipBlock_eq]
  refine expect_bind fun ts ts' d hmoved => ?_
  obtain ⟨hclosed, hrest⟩ := hmoved.closeBlock_eq 0
  rw [Rule.restOfBlock, Rule.restOfBlock]
  generalize closeBlock 0 ts = block at hclosed hrest ⊢
  generalize closeBlock 0 ts' = block' at hclosed hrest ⊢
  obtain ⟨closed, rest⟩ := block
  obtain ⟨closed', rest'⟩ := block'
  cases hclosed
  cases closed with
  | true => exact .ok hrest
  | false => exact .error

theorem collect {round round' : Parse (Parse.Item α)} (h : Parallel n round round') :
    Parallel n (Parse.collect round) (Parse.collect round') := by
  intro ts ts' d hmoved
  -- on the number of tokens ahead, which a round that goes on makes smaller
  induction hn : ts.length using Nat.strongRecOn generalizing ts ts' d with
  | _ m ih =>
    have hround := h ts ts' d hmoved
    generalize hrun : round ⟨ts, d⟩ = r at hround
    generalize hrun' : round' ⟨ts', d⟩ = r' at hround
    cases hround with
    | error =>
      rw [Parse.collect_of_error hrun, Parse.collect_of_error hrun']
      exact .error
    | @ok item us us' d' hmore =>
      cases item with
      | stop =>
        rw [Parse.collect_of_stop hrun, Parse.collect_of_stop hrun']
        exact .ok hmore
      | last a =>
        rw [Parse.collect_of_last hrun, Parse.collect_of_last hrun']
        exact .ok hmore
      | more a =>
        by_cases hlt : us.length < ts.length
        · rw [Parse.collect_of_more hrun hlt,
            Parse.collect_of_more hrun' ((hmoved.lt_iff hmore).2 hlt)]
          exact bind_from (ih us.length (hn ▸ hlt) us us' d' hmore rfl)
            fun as _ _ _ _ hrest => pure (a :: as) _ _ _ hrest
        · rw [Parse.collect_of_stuck hrun hlt,
            Parse.collect_of_stuck hrun' (mt (hmoved.lt_iff hmore).1 hlt)]
          exact .error

theorem chain {link link' : α → Parse (Option α)} (h : ∀ a, Parallel n (link a) (link' a)) (a : α) :
    Parallel n (Parse.chain link a) (Parse.chain link' a) := by
  intro ts ts' d hmoved
  -- as for lists; the value so far changes from link to link
  induction hn : ts.length using Nat.strongRecOn generalizing ts ts' d a with
  | _ m ih =>
    have hlink := h a ts ts' d hmoved
    generalize hrun : link a ⟨ts, d⟩ = r at hlink
    generalize hrun' : link' a ⟨ts', d⟩ = r' at hlink
    cases hlink with
    | error =>
      rw [Parse.chain_of_error hrun, Parse.chain_of_error hrun']
      exact .error
    | @ok next us us' d' hmore =>
      cases next with
      | none =>
        rw [Parse.chain_of_none hrun, Parse.chain_of_none hrun']
        exact .ok hmore
      | some b =>
        by_cases hlt : us.length < ts.length
        · rw [Parse.chain_of_some hrun hlt, Parse.chain_of_some hrun' ((hmoved.lt_iff hmore).2 hlt)]
          exact ih us.length (hn ▸ hlt) b us us' d' hmore rfl
        · rw [Parse.chain_of_stuck hrun hlt,
            Parse.chain_of_stuck hrun' (mt (hmoved.lt_iff hmore).1 hlt)]
          exact .error

theorem sameButCause (h : Parallel n p q) (hq : q.SameButCause q') : Parallel n p q' := by
  rcases hq with rfl | ⟨cause, cause', rfl, rfl⟩
  · exact h
  · intro ts ts' d hmoved
    have hfails := h ts ts' d hmoved
    change EndAlike n _ (EStateM.Result.error _ _) at hfails
    generalize p ⟨ts, d⟩ = r at hfails ⊢
    cases hfails
    exact .error

/-- Readers put together end alike if their parts do. -/
theorem congruence (n : Nat) : Congruence fun _ _ p p' => Parallel n p p' where
  anywhere h := h
  pure := .pure
  fail _ := .fail _ _
  advance := .advance
  bind := .bind
  kind h hinvalid := .kind_bind h fun _ cause' => (h _).sameButCause (hinvalid _ cause')
  nested h _ := .nested h
  nested_at _ h := .nested h
  collect h _ := .collect h
  chain h _ := .chain h

end Parallel

/-! ### Rules -/

/-- Whether the rules end alike at tokens that are moved. -/
def Rules.AllSteady (n : Nat) (r : Rules) : Prop :=
  ∀ c : RuleCall, Steady n (r.read c)

namespace Rules.AllSteady

variable {n : Nat} {r : Rules}

/-! ### Looking ahead -/

/-- Behind an operand it is not the first of the tokens that is looked at. -/
theorem postfixUpdate {ts ts' : List Token} (hmoved : Moved n ts ts') (hn : ts.length < n)
    (argument : Expr) (d : Nat) :
    EndAlike n (Rule.postfixUpdate argument ⟨ts, d⟩) (Rule.postfixUpdate argument ⟨ts', d⟩) := by
  have noUpdate : ∀ {k : TokenKind}, k.isTerminal = true → k.updateOperator? = none := by
    intro k hk
    cases k <;> first | rfl | exact nomatch hk
  refine Parallel.first_bind hmoved hn fun t t' ht => ?_
  cases ht with
  | last h =>
    rw [noUpdate h.terminal.1, noUpdate h.terminal.2]
    exact .pure _
  | live _ hkind hline =>
    rw [hkind, hline]
    split
    · exact .ite Iff.rfl (.pure _) (.bind .advance fun _ => .pure _)
    · exact .pure _

theorem operandBehind (h : r.AllSteady n) (hw : r.Writes) :
    Steady n (do Rule.postfixUpdate (← r.operand)) := by
  intro ts ts' d hmoved
  refine Parallel.bind_from (h .operand ts ts' d hmoved) fun a us us' d' hrun hmore => ?_
  exact postfixUpdate hmore (hmoved.taken_lt hw.operand (fun _ he => he.ne_nil rfl rfl) hrun) a d'

theorem nameOrArrow (h : r.AllSteady n) (name : String) : Steady n (Rule.nameOrArrow r name) := by
  refine .ahead_bind fun t t' ht => .bind .advance fun _ => .ite ?_ ?_ (.pure _)
  · exact ht.iff (P := fun k newline => k = .punct .arrow ∧ (!newline) = true)
      fun k _ hk h => by rw [h.1] at hk; exact nomatch hk
  · exact .bind .advance fun _ => h (.arrowBody false _)

theorem asyncFunctionRule (h : r.AllSteady n) : Steady n (Rule.asyncFunction? r) := by
  refine .ahead_bind fun next next' hnext => ?_
  cases hnext with
  | last hend =>
    -- there is no function, in a new line or not
    have nothing : ∀ newline newline' : Bool, Parallel n
        (if newline = true then Pure.pure none else Pure.pure none : Parse (Option Expr))
        (if newline' = true then Pure.pure none else Pure.pure none) := by
      intro newline newline'
      rw [ite_self, ite_self]
      exact .pure _
    generalize next.kind = k at hend ⊢
    generalize next'.kind = k' at hend ⊢
    cases hend with
    | eof => exact nothing _ _
    | invalid => exact nothing _ _
  | live _ hkind hline =>
    rw [hkind, hline]
    refine .ite Iff.rfl (.pure _) ?_
    split
    · exact .bind .advance fun _ => .bind (h (.functionExpression true)) fun _ => .pure _
    · refine .ahead_bind fun t t' ht => .ite ?_ ?_ (.pure _)
      · refine ht.iff (P := fun k _ => k = .punct .arrow) fun k _ hk h => ?_
        rw [h] at hk
        exact nomatch hk
      · refine .bind .advance fun _ => .bind .advance fun _ => .bind .advance fun _ => ?_
        exact .bind (h (.arrowBody true _)) fun _ => .pure _
    · refine .get_bind fun s s' hs => .ite (by rw [hs.arrowFollows_tail]) ?_ (.pure _)
      exact .bind .advance fun _ => .bind (h (.parenthesized true)) fun _ => .pure _
    · exact .pure _

theorem parenthesizedRule (h : r.AllSteady n) (isAsync : Bool) :
    Steady n (Rule.parenthesized r isAsync) := by
  refine .get_bind fun s s' hs => .ite (by rw [hs.arrowFollows_eq]) ?_ ?_
  · refine .bind (h .parameters) fun params => .expect_bind ?_
    exact h (.arrowBody isAsync params)
  · exact .bind .advance fun _ => .bind (h .sequence) fun _ => .expect_bind (.pure _)

theorem modifier : Steady n Rule.modifier := by
  refine .kind_bind (fun k => ?_) fun _ _ => .pure _
  split
  · split
    · refine .ahead_bind fun t t' ht => .ite ?_ (.bind .advance fun _ => .pure _) (.pure _)
      refine ht.iff (P := fun k _ => k.startsMethodName = true) fun k _ hk => ?_
      cases k with
      | invalid cause => exact Bool.false_ne_true
      | eof => exact Bool.false_ne_true
      | _ => exact nomatch hk
    · exact .pure _
  · exact .pure _

theorem lookahead (h : r.AllSteady n) (hw : r.Writes) :
    r.Lookahead (fun _ _ p p' => Parallel n p p') r where
  postfixUpdate := h.operandBehind hw
  nameOrArrow := h.nameOrArrow
  asyncFunction? := h.asyncFunctionRule
  parenthesized := h.parenthesizedRule
  modifier := modifier

end Rules.AllSteady

/-- The rules of the grammar end alike wherever the tokens are. -/
theorem rules_steady (n steps : Nat) : (Grammar.rules steps).AllSteady n :=
  (Parallel.congruence n).rules (.fail _ _) .skipBlock (fun _ => Rules.AllSteady.lookahead) steps

theorem expression_steady (n : Nat) : Steady n Parse.expression := by
  refine .bind (rules_steady n _ .sequence) fun e => .kind_bind (fun k => ?_) fun _ _ => .fail _ _
  split
  · exact .fail _ _
  · exact .pure _

/-- The same expression is read from texts with the same tokens at other places, or none. -/
theorem parse_moved {s s' : String} {n : Nat} (h : Moved n (tokenize s) (tokenize s')) :
    (parse s').toOption = (parse s).toOption := by
  have hread := expression_steady n (tokenize s) (tokenize s') 0 h
  rw [parse, parse, Parse.run, Parse.run]
  generalize Parse.expression ⟨tokenize s, 0⟩ = r at hread ⊢
  generalize Parse.expression ⟨tokenize s', 0⟩ = r' at hread ⊢
  cases hread <;> rfl

/-- The same expression is read from a text with blanks around it, or none. -/
theorem parse_around (source before behind : String)
    (hbefore : ∀ c ∈ before.toList, Text.isBlank c = true)
    (hbehind : ∀ c ∈ behind.toList, Text.isBlank c = true) :
    (parse (before ++ (source ++ behind))).toOption = (parse source).toOption :=
  (parse_moved (tokenize_blanks_append _ before hbefore)).trans
    (parse_moved (tokenize_append_blanks source behind hbehind))

end TemplateVars
