/-
Readers called one after the other.

The main result is `call_lawful`: after any calls of `Parse.expression` and
`Parse.complete` on the tokens of a text, another call finds no level open, leaves
none open and opens no more than `maxDepth`; it goes forward among the tokens, by
some if it succeeds, and never past the last one; if it fails, it does so at the
token where it stops.

* `watched_sequence` — what rules would do with more levels open is never asked;
* `Between.call` — one call leaves the stream as the next one needs it.

Design notes: a stream does not tell how many levels were open on the way.  So
each rule is put under a watch, which hands over to any other rule at all as soon
as too many are open, and the outcome is shown to be the same.
-/
import TemplateVars.Proofs.Grammar.Levels
import TemplateVars.Proofs.Grammar.Places
import TemplateVars.Proofs.Grammar.Soundness

namespace TemplateVars

open TemplateVars.Part
open Takes (Anywhere)

/-! ### A watch on the levels -/

/-- A reader under a watch: another one takes over where too many levels are open. -/
def Parse.within {α : Type} (other p : Parse α) : Parse α := fun s =>
  if s.depth ≤ maxDepth then p s else other s

/-- Rules that are all under a watch. -/
def Rules.within (other r : Rules) : Rules where
  sequence := .within other.sequence r.sequence
  assignment := .within other.assignment r.assignment
  conditional := .within other.conditional r.conditional
  binary minPrecedence := .within (other.binary minPrecedence) (r.binary minPrecedence)
  exponent := .within other.exponent r.exponent
  unary := .within other.unary r.unary
  operand := .within other.operand r.operand
  suffixes allowCalls object :=
    .within (other.suffixes allowCalls object) (r.suffixes allowCalls object)
  construction := .within other.construction r.construction
  arguments := .within other.arguments r.arguments
  primary := .within other.primary r.primary
  asyncFunction? := .within other.asyncFunction? r.asyncFunction?
  parenthesized isAsync := .within (other.parenthesized isAsync) (r.parenthesized isAsync)
  arrowBody isAsync params := .within (other.arrowBody isAsync params) (r.arrowBody isAsync params)
  functionExpression isAsync :=
    .within (other.functionExpression isAsync) (r.functionExpression isAsync)
  parameters := .within other.parameters r.parameters
  bindingElement := .within other.bindingElement r.bindingElement
  bindingTarget := .within other.bindingTarget r.bindingTarget
  arrayPattern := .within other.arrayPattern r.arrayPattern
  objectPattern := .within other.objectPattern r.objectPattern
  arrayLiteral := .within other.arrayLiteral r.arrayLiteral
  objectLiteral := .within other.objectLiteral r.objectLiteral
  objectMember := .within other.objectMember r.objectMember
  propertyKey := .within other.propertyKey r.propertyKey
  templateLiteral := .within other.templateLiteral r.templateLiteral

/-- The rules for chains of at most `n` nested calls, with a watch on each call. -/
def Grammar.watched (other : Rules) : Nat → Rules
  | 0 => .within other .exhausted
  | n + 1 => .within other (Grammar.watched other n).step

theorem AgreeAt.within {α : Type} {d : Nat} {p q other : Parse α} (hd : d ≤ maxDepth)
    (h : AgreeAt d p q) : AgreeAt d p (.within other q) := by
  intro s hs
  rw [Parse.within, if_pos (hs ▸ hd)]
  exact h s hs

/-- The steps below a depth that is allowed; below others there are none to take. -/
def watchedCost (d : Nat) : Nat :=
  if d ≤ maxDepth then levelCost d else Grammar.callsPerLevel * (maxDepth + 1)

theorem watchedCost_succ {d : Nat} (h : d < maxDepth) :
    watchedCost (d + 1) + 32 ≤ watchedCost d := by
  rw [watchedCost, watchedCost, if_pos (Nat.succ_le_of_lt h), if_pos (Nat.le_of_lt h)]
  exact Nat.le_of_eq (levelCost_succ h)

/-- Whatever the steps suffice for, few enough levels are open there. -/
theorem le_of_watchedCost {d n : Nat} (hn : n ≤ Grammar.callsPerLevel * (maxDepth + 1))
    (hd : watchedCost d < n) : d ≤ maxDepth := by
  refine Decidable.byContradiction fun hdeep => ?_
  rw [watchedCost, if_neg hdeep] at hd
  omega

namespace Rules.AgreeUpTo

variable {n : Nat} {r r' : Rules}

/-- Rules agree with rules under a watch as long as they are asked for no more. -/
theorem within (h : r.AgreeUpTo watchedCost n r') (other : Rules)
    (hn : n ≤ Grammar.callsPerLevel * (maxDepth + 1)) :
    r.AgreeUpTo watchedCost n (.within other r') where
  deeper := h.deeper
  assignment hd := .within (le_of_watchedCost hn (by omega)) (h.assignment hd)
  construction hd := .within (le_of_watchedCost hn (by omega)) (h.construction hd)
  bindingTarget hd := .within (le_of_watchedCost hn (by omega)) (h.bindingTarget hd)
  sequence hd := .within (le_of_watchedCost hn (by omega)) (h.sequence hd)
  arrowBody hd isAsync params :=
    .within (le_of_watchedCost hn (by omega)) (h.arrowBody hd isAsync params)
  arguments hd := .within (le_of_watchedCost hn (by omega)) (h.arguments hd)
  arrayLiteral hd := .within (le_of_watchedCost hn (by omega)) (h.arrayLiteral hd)
  propertyKey hd := .within (le_of_watchedCost hn (by omega)) (h.propertyKey hd)
  bindingElement hd := .within (le_of_watchedCost hn (by omega)) (h.bindingElement hd)
  templateLiteral hd := .within (le_of_watchedCost hn (by omega)) (h.templateLiteral hd)
  parameters hd := .within (le_of_watchedCost hn (by omega)) (h.parameters hd)
  arrayPattern hd := .within (le_of_watchedCost hn (by omega)) (h.arrayPattern hd)
  objectPattern hd := .within (le_of_watchedCost hn (by omega)) (h.objectPattern hd)
  functionExpression hd isAsync :=
    .within (le_of_watchedCost hn (by omega)) (h.functionExpression hd isAsync)
  objectMember hd := .within (le_of_watchedCost hn (by omega)) (h.objectMember hd)
  parenthesized hd isAsync := .within (le_of_watchedCost hn (by omega)) (h.parenthesized hd isAsync)
  suffixes hd allowCalls object :=
    .within (le_of_watchedCost hn (by omega)) (h.suffixes hd allowCalls object)
  objectLiteral hd := .within (le_of_watchedCost hn (by omega)) (h.objectLiteral hd)
  asyncFunction? hd := .within (le_of_watchedCost hn (by omega)) (h.asyncFunction? hd)
  primary hd := .within (le_of_watchedCost hn (by omega)) (h.primary hd)
  operand hd := .within (le_of_watchedCost hn (by omega)) (h.operand hd)
  unary hd := .within (le_of_watchedCost hn (by omega)) (h.unary hd)
  exponent hd := .within (le_of_watchedCost hn (by omega)) (h.exponent hd)
  binary hd := .within (le_of_watchedCost hn (by omega)) (h.binary hd)
  conditional hd := .within (le_of_watchedCost hn (by omega)) (h.conditional hd)

end Rules.AgreeUpTo

/-- The rules of the grammar agree with those under a watch, as long as they are asked
for no more. -/
theorem rules_watched (other : Rules) (n : Nat)
    (hn : n ≤ Grammar.callsPerLevel * (maxDepth + 1)) :
    (Grammar.rules n).AgreeUpTo watchedCost n (Grammar.watched other n) := by
  induction n with
  | zero => exact (Rules.AgreeUpTo.zero watchedCost_succ _ _).within other hn
  | succ n ih => exact (ih (Nat.le_of_succ_le hn)).step.within other hn

/-- Reading an expression opens no level beyond the limit, and leaves those open that
were. -/
theorem watched_sequence (other : Rules) {d : Nat} (hd : d ≤ maxDepth) :
    AgreeAt d Grammar.grammar.sequence
      (Grammar.watched other (Grammar.callsPerLevel * (maxDepth + 1))).sequence := by
  refine (rules_watched other _ (Nat.le_refl _)).sequence ?_
  rw [watchedCost, if_pos hd]
  have := levelCost_le d
  omega

/-! ### Calls -/

/-- A call of one of the two readers. -/
inductive Call where
  | expression
  | complete

/-- What a reader leaves is left of what it was given. -/
theorem Takes.left {α : Type} {A : List Token → Prop} {p : Parse α}
    {Q : α → List TokenKind → Prop} (h : Takes A p Q) {s : Stream} (hs : A s.rest) :
    ∃ taken, s.rest = taken ++ (p.left s).rest ∧ Live taken := by
  have hp := h s hs
  unfold Parse.left
  cases hps : p s with
  | ok a t =>
    rw [hps] at hp
    obtain ⟨taken, htaken, hlive, -⟩ := hp
    exact ⟨taken, htaken, hlive⟩
  | error e t =>
    rw [hps] at hp
    obtain ⟨taken, -, htaken, hlive, -⟩ := hp
    exact ⟨taken, htaken, hlive⟩

namespace Call

/-- The reader that is called. -/
def reader : Call → Parse Expr
  | expression => Parse.expression
  | complete => Parse.complete

/-- The stream that some calls leave. -/
def leave (calls : List Call) (s : Stream) : Stream :=
  calls.foldl (fun s call => call.reader.left s) s

/-- What a call does to a stream over some tokens. -/
structure Lawful (tokens : List Token) (s : Stream) (call : Call) : Prop where
  depth_before : s.depth = 0
  depth_after : (call.reader.left s).depth = 0
  /-- Both readers begin with a sequence; its outcome does not depend on what any
  rule would do with more levels open than may be. -/
  depth_within (other : Rules) :
    (Grammar.watched other (Grammar.callsPerLevel * (maxDepth + 1))).sequence s =
      Grammar.grammar.sequence s
  /-- The call starts at the token with number `i` and stops at the one with number `j`. -/
  forward : ∃ i j, s.rest = tokens.drop i ∧ (call.reader.left s).rest = tokens.drop j ∧
    i ≤ j ∧ j ≤ tokens.length - 1 ∧
    match (call.reader.run s).1 with
    | .ok _ => i < j ∧ ∃ t, tokens[i]? = some t ∧ t.kind.isTerminal = false
    | .error e =>
      let t := tokens.getD j Stream.endToken
      e.line = t.start.line ∧ e.column = t.start.column ∧
        ∀ lexical, t.kind = .invalid lexical → e.cause = .lexical lexical

theorem takes (call : Call) : Takes Anywhere call.reader fun e => Written (expr e) := by
  cases call with
  | expression => exact expression_takes
  | complete =>
    refine .andThen expression_takes fun e ks he => .kind_bind fun k => .ite (fun _ => ?_) ?_
    · exact .pure (by rwa [List.append_nil])
    · exact fun _ => .fail

/-- A call leaves as many levels open as there were. -/
theorem agreeAt (call : Call) {d : Nat} (hd : d ≤ maxDepth) :
    AgreeAt d call.reader call.reader := by
  have hexpression : AgreeAt d Parse.expression Parse.expression := by
    refine .bind (fun s hs => ⟨rfl, (watched_sequence .exhausted hd s hs).2⟩) fun e =>
      .bind .kind fun k => ?_
    split
    · exact .fail _
    · exact .pure _
  cases call with
  | expression => exact hexpression
  | complete => exact .bind hexpression fun e => .bind .kind fun k => .ite (.pure _) (.fail _)

end Call

/-- Between calls no level is open, and of the tokens some are taken that are not
terminal. -/
structure Between (tokens : List Token) (s : Stream) : Prop where
  depth : s.depth = 0
  taken : ∃ taken, tokens = taken ++ s.rest ∧ Live taken

namespace Between

variable {tokens : List Token} {s : Stream}

theorem call (h : Between tokens s) (call : Call) : Between tokens (call.reader.left s) where
  depth := (call.agreeAt (Nat.zero_le _) s h.depth).2
  taken := by
    obtain ⟨first, hfirst, hlive⟩ := h.taken
    obtain ⟨second, hsecond, hlive'⟩ := call.takes.left trivial
    refine ⟨first ++ second, ?_, hlive.append hlive'⟩
    rw [hfirst, hsecond, List.append_assoc]

theorem calls (h : Between tokens s) (calls : List Call) :
    Between tokens (Call.leave calls s) := by
  induction calls generalizing s with
  | nil => exact h
  | cons c calls ih => exact ih (h.call c)

end Between

/-- The tokens taken are not all there are, since the last one is terminal. -/
theorem Ended.length_lt {taken rest : List Token} (h : Ended (taken ++ rest))
    (htaken : Live taken) : taken.length < (taken ++ rest).length := by
  induction taken with
  | nil =>
    cases rest with
    | nil => exact h.elim
    | cons t rest => exact Nat.zero_lt_succ _
  | cons t taken ih =>
    obtain ⟨ht, htaken⟩ := List.forall_mem_cons.1 htaken
    have := ih (Ended.tail h ht) htaken
    simp only [List.cons_append, List.length_cons]
    omega

/-- Tokens that are not terminal stop in front of the last one, if it is terminal. -/
theorem Live.stop {tokens taken rest : List Token} (htokens : tokens = [] ∨ Ended tokens)
    (hall : tokens = taken ++ rest) (hlive : Live taken) :
    rest = tokens.drop taken.length ∧ taken.length ≤ tokens.length - 1 := by
  subst hall
  refine ⟨List.drop_left.symm, ?_⟩
  rcases htokens with hnil | hended
  · rw [(List.append_eq_nil_iff.1 hnil).1]
    exact Nat.zero_le _
  · exact Nat.le_sub_one_of_lt (hended.length_lt hlive)

theorem current_drop {s : Stream} {tokens : List Token} {j : Nat} (h : s.rest = tokens.drop j) :
    s.current = tokens.getD j Stream.endToken := by
  rw [Stream.current, h, List.headD_eq_head?_getD, List.head?_drop, List.getD_eq_getElem?_getD]

/-- One call after others is lawful, among tokens of which the last is terminal. -/
theorem Between.lawful {tokens : List Token} {s : Stream} (h : Between tokens s)
    (htokens : tokens = [] ∨ Ended tokens) (call : Call) : call.Lawful tokens s where
  depth_before := h.depth
  depth_after := (h.call call).depth
  depth_within other := ((watched_sequence other (Nat.zero_le _) s h.depth).1).symm
  forward := by
    obtain ⟨first, hfirst, hlive⟩ := h.taken
    have hcall := call.takes s trivial
    have hend : ∀ {taken rest : List Token}, s.rest = taken ++ rest → Live taken →
        rest = tokens.drop (first ++ taken).length ∧
          (first ++ taken).length ≤ tokens.length - 1 := fun htaken hlive' =>
      Live.stop htokens (by rw [hfirst, htaken, List.append_assoc]) (hlive.append hlive')
    have hstart : s.rest = tokens.drop first.length := by rw [hfirst, List.drop_left]
    have hle : ∀ taken : List Token, first.length ≤ (first ++ taken).length := fun taken => by
      rw [List.length_append]
      exact Nat.le_add_right _ _
    unfold Parse.left Parse.run
    cases hrun : call.reader s with
    | ok e t =>
      rw [hrun] at hcall
      obtain ⟨taken, htaken, hlive', hwritten⟩ := hcall
      obtain ⟨hrest, hlast⟩ := hend htaken hlive'
      refine ⟨_, _, hstart, hrest, hle taken, hlast, ?_⟩
      -- an expression is written with some token, so one was taken
      cases taken with
      | nil => exact absurd rfl (hwritten.ne_nil rfl)
      | cons u taken =>
        refine ⟨?_, u, ?_, hlive' u List.mem_cons_self⟩
        · rw [List.length_append, List.length_cons]
          omega
        · rw [hfirst, htaken, List.getElem?_append_right (Nat.le_refl _), Nat.sub_self]
          rfl
    | error e t =>
      rw [hrun] at hcall
      obtain ⟨taken, cause, htaken, hlive', rfl⟩ := hcall
      obtain ⟨hrest, hlast⟩ := hend htaken hlive'
      refine ⟨_, _, hstart, hrest, hle taken, hlast, ?_⟩
      show (t.errorHere cause).line = _ ∧ (t.errorHere cause).column = _ ∧ _
      rw [← current_drop hrest]
      refine ⟨rfl, rfl, fun lexical hlexical => ?_⟩
      simp only [Stream.errorHere, hlexical]

/-- After any calls on the tokens of a text, or on no tokens, another call is lawful. -/
theorem call_lawful (source : Option String) (calls : List Call) (call : Call) :
    call.Lawful (source.elim [] tokenize)
      (Call.leave calls { rest := source.elim [] tokenize }) := by
  have hstart : Between (source.elim [] tokenize) { rest := source.elim [] tokenize } :=
    ⟨rfl, [], rfl, .nil⟩
  refine (hstart.calls calls).lawful ?_ call
  cases source with
  | none => exact .inl rfl
  | some text => exact .inr (tokenize_ended text)

end TemplateVars
