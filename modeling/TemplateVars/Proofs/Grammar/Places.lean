/-
Where the rules of the grammar stand among the tokens of a text.

`Moves all Q p Q'` says that `p`, started at a place among the tokens `all` where
`Q` holds, stops at one where `Q'` holds.

* `Begins`, `Ends` — the places where an operand may begin and where one has
  ended, by what a slash there would be;
* `Stops` — the place at which a reader fails: a slash that it did not expect
  stands behind `++` or `--`;
* `Moves.advance`, `Moves.accept_bind`, `Moves.expect` — what taking a token does.

Design notes: an assertion about a place sees the tokens before it, the nearest
first, and those ahead.  Behind `++` and `--` an operand may begin although a
slash divides there; these are the two tokens that stand both before and behind
an operand.
-/
import TemplateVars.Proofs.Grammar.Triple
import TemplateVars.Proofs.Token.Slash

namespace TemplateVars

/-- An assertion about the tokens before a place and those ahead. -/
abbrev Place := List Token → List Token → Prop

/-- Whether the nearest of the tokens before a place is `++` or `--`. -/
def AfterUpdate : List Token → Prop
  | [] => False
  | t :: _ => t.kind = .punct .plusPlus ∨ t.kind = .punct .minusMinus

namespace Place

/-- A place where an operand may begin: a slash opens a regular expression, or an
update operator stands before it. -/
def Begins : Place := fun before _ =>
  afterAccess before = false ∧ (slashOpensRegex before = true ∨ AfterUpdate before)

/-- A place where an operand has ended: a slash divides. -/
def Ends : Place := fun before _ => slashOpensRegex before = false

def Anywhere : Place := fun _ _ => True

/-- A place behind `.` or `?.`. -/
def Accesses : Place := fun before _ => afterAccess before = true

/-- A place in front of a token of some kind. -/
def At (Q : Place) (k : TokenKind) : Place := fun before ts => Q before ts ∧ headKind ts = k

/-- A place from which a token is some number of places ahead. -/
def Ahead (Q : Place) (n : Nat) (t : Token) : Place := fun before ts =>
  Q before ts ∧ (Stream.mk ts 0).ahead n = t

/-- Where a round of reading a list ends: at `R` if it is the last one, and
otherwise at `Q`, for the next. -/
def Round {α : Type} (Q R : Place) : Parse.Item α → Place
  | .stop => R
  | .last _ => R
  | .more _ => Q

end Place

open Place

theorem begins_cons {t : Token} {before ts : List Token}
    (hkeyword : t.kind.keywordText? = none ∨ afterAccess before = false)
    (hallows : t.kind.allowsRegexAfter = true) (haccess : t.kind.isAccess = false) :
    Begins (t :: before) ts := by
  refine ⟨haccess, .inl ?_⟩
  rw [slashOpensRegex, hallows, Bool.and_true]
  rcases hkeyword with h | h
  · rw [h]
    simp
  · rw [h]
    rfl

theorem begins_mark {t : Token} {m : Punctuator} {before ts : List Token}
    (ht : t.kind = .punct m) (hallows : (TokenKind.punct m).allowsRegexAfter = true)
    (haccess : (TokenKind.punct m).isAccess = false) : Begins (t :: before) ts := by
  rw [← ht] at hallows haccess
  exact begins_cons (.inl (by rw [ht]; rfl)) hallows haccess

theorem begins_update {t : Token} {before ts : List Token} {op : UpdateOperator}
    (h : t.kind.updateOperator? = some op) : Begins (t :: before) ts := by
  unfold TokenKind.updateOperator? at h
  split at h
  · next heq => exact ⟨by rw [afterAccess, heq]; rfl, .inr (.inl heq)⟩
  · next heq => exact ⟨by rw [afterAccess, heq]; rfl, .inr (.inr heq)⟩
  · exact nomatch h

theorem ends_cons {t : Token} {k : TokenKind} {before ts : List Token} (ht : t.kind = k)
    (h : k.allowsRegexAfter = false) : Ends (t :: before) ts := by
  show slashOpensRegex (t :: before) = false
  rw [slashOpensRegex, ht, h, Bool.and_false]

/-- A keyword that names a property ends an operand. -/
theorem ends_name {t : Token} {before ts : List Token} (haccess : afterAccess before = true)
    (hkeyword : t.kind.keywordText?.isSome = true) : Ends (t :: before) ts := by
  show slashOpensRegex (t :: before) = false
  rw [slashOpensRegex, haccess, hkeyword]
  rfl

/-- No operand has ended behind `.` or `?.`. -/
theorem Place.Ends.not_access {before ts : List Token} (h : Ends before ts) :
    afterAccess before = false := by
  cases before with
  | nil => rfl
  | cons t before =>
    -- behind `.` and `?.` themselves a slash would open a regular expression
    refine Bool.eq_false_iff.2 fun haccess => ?_
    have hkind : t.kind = .punct .dot ∨ t.kind = .punct .questionDot := by
      simpa [afterAccess, TokenKind.isAccess] using haccess
    have hopens : slashOpensRegex (t :: before) = true := by
      rcases hkind with h | h <;> simp [slashOpensRegex, h, TokenKind.keywordText?,
        TokenKind.allowsRegexAfter]
    exact nomatch h.symm.trans hopens

/-! ### Places among the tokens of a text -/

/-- Whether some tokens are what lies ahead of a place among all of them. -/
def Past (all : List Token) (Q : Place) (ts : List Token) : Prop :=
  Ended ts ∧ ∃ before, all = before.reverse ++ ts ∧ Q before ts

/-- Whether an error belongs to a place: it names the token there, and if it is
about a slash, the token before is `++` or `--`. -/
def Stops (all : List Token) (error : ParseError) (ts : List Token) : Prop :=
  Past all (fun before _ => error.cause = .unexpected (.punct .slash) ∨
    error.cause = .unexpected (.assign .divide) → AfterUpdate before) ts ∧
  error.line = (ts.headD Stream.endToken).start.line ∧
  error.column = (ts.headD Stream.endToken).start.column

theorem Past.mono {all : List Token} {Q Q' : Place} {ts : List Token} (h : Past all Q ts)
    (hQ : ∀ before, Q before ts → Q' before ts) : Past all Q' ts := by
  obtain ⟨hended, before, hall, hplace⟩ := h
  exact ⟨hended, before, hall, hQ before hplace⟩

theorem Ended.tail {t : Token} {ts : List Token} (h : Ended (t :: ts))
    (ht : t.kind.isTerminal = false) : Ended ts := by
  cases ts with
  | nil => exact absurd ((show t.kind.isTerminal = true from h).symm.trans ht) nofun
  | cons u us => exact h

theorem ahead_zero (ts : List Token) : ((Stream.mk ts 0).ahead 0).kind = headKind ts := by
  cases ts <;> rfl

theorem ahead_succ {t : Token} {rest : List Token} (h : Ended rest) (n : Nat) :
    (Stream.mk (t :: rest) 0).ahead (n + 1) = (Stream.mk rest 0).ahead n := by
  cases rest with
  | nil => exact h.elim
  | cons u us =>
    simp only [Stream.ahead, List.getElem?_cons_succ]
    rfl

theorem Past.advance {all : List Token} {Q Q' : Place} {ts : List Token} (h : Past all Q ts)
    (hlive : (headKind ts).isTerminal = false)
    (hQ : ∀ t before rest, t.kind = headKind ts → Ended rest → Q before (t :: rest) →
      Q' (t :: before) rest) : Past all Q' (dropToken ts) := by
  obtain ⟨hended, before, hall, hplace⟩ := h
  cases ts with
  | nil => exact hended.elim
  | cons t rest =>
    rw [headKind_cons] at hlive
    rw [dropToken_cons rest hlive]
    have hrest : Ended rest := hended.tail hlive
    refine ⟨hrest, t :: before, ?_, hQ t before rest rfl hrest hplace⟩
    rw [hall, List.reverse_cons, List.append_assoc]
    rfl

/-- The token at a place stands there as the lexer reads a slash. -/
theorem Past.slashRight {all : List Token} {Q : Place} {ts : List Token}
    (hslash : SlashesRight [] all) (h : Past all Q ts) :
    Past all (fun before ts => Q before ts ∧ SlashRight (slashOpensRegex before) (headKind ts))
      ts := by
  obtain ⟨hended, before, hall, hplace⟩ := h
  refine ⟨hended, before, hall, hplace, ?_⟩
  cases ts with
  | nil => exact hended.elim
  | cons t rest =>
    rw [hall] at hslash
    have hright := hslash.of_append
    rw [List.reverse_reverse, List.append_nil] at hright
    exact hright.1

/-- An error is about what its reader found wrong, unless the token is none. -/
theorem errorAt_cause (ts : List Token) (cause : SyntaxError) :
    (errorAt ts cause).cause = cause ∨ ∃ e, (errorAt ts cause).cause = .lexical e := by
  unfold errorAt Stream.errorHere
  simp only []
  split
  · next e _ => exact .inr ⟨e, rfl⟩
  · exact .inl rfl

theorem stops {all : List Token} {Q : Place} {ts : List Token} (h : Past all Q ts)
    {cause : SyntaxError} (hcause : ∀ k, cause ≠ .unexpected k) :
    Stops all (errorAt ts cause) ts := by
  refine ⟨h.mono fun before _ hslash => ?_, rfl, rfl⟩
  have hne : ∀ k, (errorAt ts cause).cause ≠ .unexpected k := by
    intro k hk
    rcases errorAt_cause ts cause with h | ⟨e, h⟩
    · exact hcause k (h.symm.trans hk)
    · exact nomatch h.symm.trans hk
  rcases hslash with h | h
  · exact absurd h (hne _)
  · exact absurd h (hne _)

/-- What a reader does, started at a place of some kind. -/
def Moves {α : Type} (all : List Token) (Q : Place) (p : Parse α) (Q' : α → Place) : Prop :=
  Triple (Stops all) (Past all Q) p fun a => Past all (Q' a)

namespace Moves

variable {α β : Type} {all : List Token} {Q R : Place} {p : Parse α}

theorem mono {Q' : Place} {R R' : α → Place} (h : Moves all Q p R)
    (hQ : ∀ before ts, Q' before ts → Q before ts)
    (hR : ∀ a before ts, R a before ts → R' a before ts) : Moves all Q' p R' :=
  Triple.mono h (fun ts hts => hts.mono fun before => hQ before ts)
    fun a ts hts => hts.mono fun before => hR a before ts

theorem weaken {Q' : Place} {R : α → Place} (h : Moves all Q p R)
    (hQ : ∀ before ts, Q' before ts → Q before ts) : Moves all Q' p R :=
  h.mono hQ fun _ _ _ h => h

/-- A reader that may start anywhere may start at a place of any kind. -/
theorem anywhere {R : α → Place} (h : Moves all Anywhere p R) : Moves all Q p R :=
  h.weaken fun _ _ _ => trivial

/-- What the token at a place is does not matter. -/
theorem at_head {k : TokenKind} {R : α → Place} (h : Moves all Q p R) : Moves all (Q.At k) p R :=
  h.weaken fun _ _ h => h.1

theorem of_ahead {n : Nat} {t : Token} {R : α → Place} (h : Moves all Q p R) :
    Moves all (Q.Ahead n t) p R :=
  h.weaken fun _ _ h => h.1

/-- A token no places ahead is the one at the place. -/
theorem of_ahead_zero {t : Token} {R : α → Place} (h : Moves all (Q.At t.kind) p R) :
    Moves all (Q.Ahead 0 t) p R :=
  h.weaken fun _ ts h => ⟨h.1, by rw [← h.2, ahead_zero]⟩

theorem pure {a : α} : Moves all Q (Pure.pure a) fun _ => Q :=
  Triple.pure fun _ hts => hts

theorem bind {S : α → Place} {R : β → Place} {f : α → Parse β} (hp : Moves all Q p S)
    (hf : ∀ a, Moves all (S a) (f a) R) : Moves all Q (p >>= f) R :=
  Triple.bind hp hf

theorem ite {c : Prop} [Decidable c] {R : α → Place} {q : Parse α} (hp : c → Moves all Q p R)
    (hq : ¬c → Moves all Q q R) : Moves all Q (if c then p else q) R :=
  Triple.ite hp hq

theorem fail {cause : SyntaxError} {R : α → Place} (hcause : ∀ k, cause ≠ .unexpected k) :
    Moves all Q (Parse.fail cause) R :=
  Triple.fail fun _ hts => stops hts hcause

theorem kind : Moves all Q Parse.kind fun k => Q.At k :=
  Triple.kind fun _ hts => hts.mono fun _ h => ⟨h, rfl⟩

theorem ahead {n : Nat} : Moves all Q (Parse.ahead n) fun t => Q.Ahead n t :=
  Triple.ahead fun _ hts => hts.mono fun _ h => ⟨h, rfl⟩

theorem get : Moves all Q MonadState.get fun _ => Q :=
  Triple.get fun _ hts => hts

theorem nested {R : α → Place} (h : Moves all Q p R) : Moves all Q (Parse.nested p) R :=
  Triple.nested h fun _ hts => stops hts nofun

/-! ### Taking a token -/

theorem advance {S : Place} (hlive : ∀ before ts, Q before ts → (headKind ts).isTerminal = false)
    (hQ : ∀ t before rest, Ended rest → Q before (t :: rest) → S (t :: before) rest) :
    Moves all Q Parse.advance fun _ => S := by
  refine Triple.advance fun ts hts => ?_
  have hhead : (headKind ts).isTerminal = false := by
    obtain ⟨-, before, -, hplace⟩ := hts
    exact hlive before ts hplace
  exact hts.advance hhead fun t before rest _ => hQ t before rest

theorem advance_any : Moves all Q Parse.advance fun _ => Anywhere := by
  refine Triple.advance fun ts hts => ?_
  by_cases hlive : (headKind ts).isTerminal = true
  · rw [dropToken, if_pos hlive]
    exact hts.mono fun _ _ => trivial
  · exact hts.advance (Bool.eq_false_iff.2 hlive) fun _ _ _ _ _ _ => trivial

/-- Behind a token that no operand ends with, one begins. -/
theorem advance_begins {k : TokenKind} (hlive : k.isTerminal = false)
    (hallows : k.allowsRegexAfter = true) (haccess : k.isAccess = false)
    (hkeyword : k.keywordText? = none ∨ ∀ before ts, Q before ts → afterAccess before = false) :
    Moves all (Q.At k) Parse.advance fun _ => Begins := by
  refine advance (fun _ _ h => by rw [h.2]; exact hlive) fun t before rest _ h => ?_
  have hkind : t.kind = k := h.2
  rw [← hkind] at hallows haccess hkeyword
  refine begins_cons ?_ hallows haccess
  rcases hkeyword with hnone | hbefore
  · exact .inl hnone
  · exact .inr (hbefore before _ h.1)

/-- Behind a token that an operand may end with, one has ended. -/
theorem advance_ends {k : TokenKind} (hlive : k.isTerminal = false)
    (hallows : k.allowsRegexAfter = false) :
    Moves all (Q.At k) Parse.advance fun _ => Ends :=
  advance (fun _ _ h => by rw [h.2]; exact hlive) fun _ _ _ _ h => ends_cons h.2 hallows

theorem advance_accesses {k : TokenKind} (hlive : k.isTerminal = false)
    (haccess : k.isAccess = true) : Moves all (Q.At k) Parse.advance fun _ => Accesses := by
  refine advance (fun _ _ h => by rw [h.2]; exact hlive) fun t before rest _ h => ?_
  show t.kind.isAccess = true
  rw [show t.kind = k from h.2, haccess]

/-- A token that was some places ahead is nearer by one. -/
theorem advance_ahead {S : Place} {n : Nat} {t : Token}
    (hlive : ∀ before ts, Q before ts → (headKind ts).isTerminal = false)
    (hQ : ∀ t before rest, Ended rest → Q before (t :: rest) → S (t :: before) rest) :
    Moves all (Q.Ahead (n + 1) t) Parse.advance fun _ => S.Ahead n t :=
  advance (fun before ts h => hlive before ts h.1) fun u before rest hrest h =>
    ⟨hQ u before rest hrest h.1, by rw [← h.2, ahead_succ hrest]⟩

variable {m : Punctuator} {R : β → Place} {f : Bool → Parse β}

/-- A mark is taken if it is there; otherwise nothing changes. -/
theorem accept_bind {S T : Place}
    (hyes : ∀ t before rest, t.kind = .punct m → S (t :: before) rest)
    (hno : ∀ before ts, Q before ts → headKind ts ≠ .punct m → T before ts)
    (htrue : Moves all S (f true) R) (hfalse : Moves all T (f false) R) :
    Moves all Q (Parse.accept m >>= f) R := by
  refine Triple.bind (B := fun b ts => if b = true then Past all S ts else Past all T ts)
    (Triple.accept (fun ts hts hkind => ?_) fun ts hts hkind => ?_) fun b => ?_
  · rw [if_pos rfl]
    refine hts.advance (by rw [hkind]; rfl) fun t before rest ht _ _ => ?_
    exact hyes t before rest (ht.trans hkind)
  · rw [if_neg Bool.false_ne_true]
    exact hts.mono fun before h => hno before ts h hkind
  · cases b with
    | true => exact htrue
    | false => exact hfalse

theorem accept_begins (hallows : (TokenKind.punct m).allowsRegexAfter = true)
    (haccess : (TokenKind.punct m).isAccess = false) (htrue : Moves all Begins (f true) R)
    (hfalse : Moves all Q (f false) R) : Moves all Q (Parse.accept m >>= f) R :=
  accept_bind (fun _ _ _ ht => begins_mark ht hallows haccess) (fun _ _ h _ => h) htrue hfalse

theorem accept_any (htrue : Moves all Anywhere (f true) R) (hfalse : Moves all Q (f false) R) :
    Moves all Q (Parse.accept m >>= f) R :=
  accept_bind (fun _ _ _ _ => trivial) (fun _ _ h _ => h) htrue hfalse

theorem check_bind (htrue : Moves all (Q.At (.punct m)) (f true) R)
    (hfalse : Moves all Q (f false) R) : Moves all Q (Parse.check m >>= f) R := by
  refine Triple.bind (B := fun b ts => if b = true then Past all (Q.At (.punct m)) ts
    else Past all Q ts) (Triple.check fun ts hts => ?_) fun b => ?_
  · by_cases hkind : headKind ts = .punct m
    · rw [if_pos (decide_eq_true hkind)]
      exact hts.mono fun _ h => ⟨h, hkind⟩
    · rw [if_neg (by rw [decide_eq_false hkind]; exact Bool.false_ne_true)]
      exact hts
  · cases b with
    | true => exact htrue
    | false => exact hfalse

variable {wanted : Expected}

theorem expect {S : Place}
    (h : ∀ t before rest, t.kind = .punct wanted.mark → S (t :: before) rest) :
    Moves all Q (Parse.expect wanted) fun _ => S := by
  refine Triple.expect (fun ts hts hkind => ?_) fun ts hts => stops hts nofun
  refine hts.advance (by rw [hkind]; rfl) fun t before rest ht _ _ => ?_
  exact h t before rest (ht.trans hkind)

theorem expect_begins (hallows : (TokenKind.punct wanted.mark).allowsRegexAfter = true)
    (haccess : (TokenKind.punct wanted.mark).isAccess = false) :
    Moves all Q (Parse.expect wanted) fun _ => Begins :=
  expect fun _ _ _ ht => begins_mark ht hallows haccess

theorem expect_ends (hallows : (TokenKind.punct wanted.mark).allowsRegexAfter = false) :
    Moves all Q (Parse.expect wanted) fun _ => Ends :=
  expect fun _ _ _ ht => ends_cons ht hallows

theorem expect_any : Moves all Q (Parse.expect wanted) fun _ => Anywhere :=
  expect fun _ _ _ _ => trivial

/-! ### Blocks and repetition -/

/-- A block leaves the tokens behind the brace that closes it. -/
theorem closeBlock_split (opened : Nat) {ts : List Token} (h : Ended ts) :
    Ended (closeBlock opened ts).2 ∧ ∃ passed, ts = passed ++ (closeBlock opened ts).2 ∧
      ((closeBlock opened ts).1 = true →
        ∃ first t, passed = first ++ [t] ∧ t.kind = .punct .rightBrace) := by
  -- for every number of open braces, and a terminal token ends the search
  induction ts generalizing opened with
  | nil => exact h.elim
  | cons t ts ih =>
    have skip : ∀ opened', Ended ts → Ended (closeBlock opened' ts).2 ∧
        ∃ passed, t :: ts = passed ++ (closeBlock opened' ts).2 ∧
          ((closeBlock opened' ts).1 = true →
            ∃ first u, passed = first ++ [u] ∧ u.kind = .punct .rightBrace) := by
      intro opened' hts
      obtain ⟨hended, passed, hpassed, hclosed⟩ := ih opened' hts
      refine ⟨hended, t :: passed, by rw [List.cons_append, ← hpassed], fun hc => ?_⟩
      obtain ⟨first, u, rfl, hu⟩ := hclosed hc
      exact ⟨t :: first, u, rfl, hu⟩
    rw [closeBlock]
    by_cases hopen : t.kind = .punct .leftBrace
    · rw [if_pos hopen]
      exact skip _ (h.tail (by rw [hopen]; rfl))
    · rw [if_neg hopen]
      by_cases hclose : t.kind = .punct .rightBrace
      · have hts : Ended ts := h.tail (by rw [hclose]; rfl)
        rw [if_pos hclose]
        split
        · exact ⟨hts, [t], rfl, fun _ => ⟨[], t, rfl, hclose⟩⟩
        · exact skip _ hts
      · rw [if_neg hclose]
        by_cases hterminal : t.kind.isTerminal = true
        · rw [if_pos hterminal]
          exact ⟨h, [], rfl, nofun⟩
        · rw [if_neg hterminal]
          exact skip _ (h.tail (Bool.eq_false_iff.2 hterminal))

theorem skipBlock : Moves all Q Rule.skipBlock fun _ => Ends := by
  have inside : ∀ ts, Past all Q ts → headKind ts = .punct .leftBrace →
      Past all Anywhere (dropToken ts) :=
    fun ts hts hkind => hts.advance (by rw [hkind]; rfl) fun _ _ _ _ _ _ => trivial
  refine Triple.skipBlock (fun ts rest hts hkind hclosed => ?_) (fun ts hts => stops hts nofun)
    fun ts rest hts hkind hlost => stops (Q := Anywhere) ?_ nofun
  · obtain ⟨hended, before, hall, -⟩ := inside ts hts hkind
    obtain ⟨hrest, passed, hpassed, hbrace⟩ := closeBlock_split 0 hended
    rw [hclosed] at hrest hpassed hbrace
    obtain ⟨first, t, rfl, ht⟩ := hbrace rfl
    -- the brace that closes the block is the nearest token now
    refine ⟨hrest, t :: (first.reverse ++ before), ?_, ends_cons ht rfl⟩
    rw [hall, hpassed]
    simp
  · obtain ⟨hended, before, hall, -⟩ := inside ts hts hkind
    obtain ⟨hrest, passed, hpassed, -⟩ := closeBlock_split 0 hended
    rw [hlost] at hrest hpassed
    refine ⟨hrest, passed.reverse ++ before, ?_, trivial⟩
    rw [hall, hpassed]
    simp

theorem stop {Q R : Place} :
    Moves all R (Pure.pure Parse.Item.stop) (Round Q R : Parse.Item α → Place) :=
  Triple.pure fun _ hts => hts

theorem last {Q R : Place} {a : α} :
    Moves all R (Pure.pure (Parse.Item.last a)) (Round Q R) :=
  Triple.pure fun _ hts => hts

theorem more {Q R : Place} {a : α} :
    Moves all Q (Pure.pure (Parse.Item.more a)) (Round Q R) :=
  Triple.pure fun _ hts => hts

/-- Repetition goes on from where a round has started. -/
theorem collect {round : Parse (Parse.Item α)} {R : Place} (h : Moves all Q round (Round Q R)) :
    Moves all Q (Parse.collect round) fun _ => R := by
  refine Triple.collect (Triple.mono h (fun _ h => h) fun item ts hts => ?_)
    fun ts hts => stops hts nofun
  cases item with
  | stop => exact hts
  | last a => exact hts
  | more a => exact ⟨hts, fun _ _ h => h⟩

theorem chain {link : α → Parse (Option α)} (h : ∀ a, Moves all Q (link a) fun _ => Q) (a : α) :
    Moves all Q (Parse.chain link a) fun _ => Q := by
  refine Triple.chain (fun a => Triple.mono (h a) (fun _ h => h) fun next ts hts => ?_)
    (fun _ ts hts => stops hts nofun) a
  cases next with
  | none => exact hts
  | some b => exact hts

end Moves

end TemplateVars
