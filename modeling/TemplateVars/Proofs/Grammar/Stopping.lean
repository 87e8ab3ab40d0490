/-
Where the rules for operators stop.

A rule for an operator goes on as long as the token ahead is one of its own, so what it
leaves says which rule has stopped there.  `Along all A p B` says of a reader, started
among the tokens `all` where `A` holds, which value it returns and which tokens it leaves.

* `StopsAt` — no operator of some rank or a tighter one stands behind an expression;
* `BodyStops` — the same behind the body of an arrow function;
* `rules_stop` — both hold behind what the rules for operators read, if there are no
  parentheses.

Design notes: what ends in `++` or `--` is the exception, as no member access is tried
behind such an operator.  Without parentheses a call or a list of parameters cannot even
begin, so only the rules that are left have a field in `Rules.Stop`.
-/
import TemplateVars.Proofs.Grammar.Reading
import TemplateVars.Proofs.Grammar.Soundness

namespace TemplateVars

open TemplateVars.Part Spelling
open Takes (Anywhere At)

/-! ### Readers among the tokens of a text -/

/-- What a reader, started among some tokens where `A` holds, returns and leaves. -/
def Along {α : Type} (all : List Token) (A : List Token → Prop) (p : Parse α)
    (B : α → List Token → Prop) : Prop :=
  Triple (fun _ _ => True) (fun ts => ts <:+ all ∧ A ts) p fun a ts => ts <:+ all ∧ B a ts

/-- A place behind a token of some kind, which stands where `A` holds. -/
def Behind (all : List Token) (A : List Token → Prop) (k : TokenKind) (ts : List Token) : Prop :=
  ∃ t : Token, t.kind = k ∧ t :: ts <:+ all ∧ A (t :: ts)

namespace Along

variable {α β : Type} {all : List Token} {A A' : List Token → Prop} {p : Parse α}
  {B B' : α → List Token → Prop} {C : β → List Token → Prop}

theorem mono (h : Along all A p B) (hA : ∀ ts, A' ts → A ts)
    (hB : ∀ a ts, ts <:+ all → B a ts → B' a ts) : Along all A' p B' :=
  Triple.mono h (fun ts hts => ⟨hts.1, hA ts hts.2⟩) fun a ts hts => ⟨hts.1, hB a ts hts.1 hts.2⟩

theorem weaken (h : Along all A p B) (hA : ∀ ts, A' ts → A ts) : Along all A' p B :=
  h.mono hA fun _ _ _ h => h

theorem anywhere (h : Along all Anywhere p B) : Along all A p B := h.weaken fun _ _ => trivial

/-- What is shown from each place. -/
theorem each (h : ∀ ts, ts <:+ all → A ts → Along all (· = ts) p B) : Along all A p B :=
  fun s hs => h s.rest hs.1 hs.2 s ⟨hs.1, rfl⟩

/-- What follows from the place at which a reader starts may be used of the reader. -/
theorem given {P : Prop} (hA : ∀ ts, ts <:+ all → A ts → P) (h : P → Along all A p B) :
    Along all A p B :=
  fun s hs => h (hA s.rest hs.1 hs.2) s hs

/-- Two things that are known of a reader, the second under some condition. -/
theorem both {P : Prop} (h : Along all A p B) (h' : P → Along all A p B') :
    Along all A p fun a ts => B a ts ∧ (P → B' a ts) := by
  intro s hs
  have hp := h s hs
  have hp' := fun hP => h' hP s hs
  cases hps : p s with
  | error e t => trivial
  | ok a t =>
    rw [hps] at hp
    simp only [hps] at hp'
    exact ⟨hp.1, hp.2, fun hP => (hp' hP).2⟩

theorem pure {a : α} (h : ∀ ts, ts <:+ all → A ts → B a ts) : Along all A (Pure.pure a) B :=
  Triple.pure fun ts hts => ⟨hts.1, h ts hts.1 hts.2⟩

theorem fail {cause : SyntaxError} : Along all A (Parse.fail cause) B :=
  Triple.fail fun _ _ => trivial

theorem bind {f : α → Parse β} (hp : Along all A p B) (hf : ∀ a, Along all (B a) (f a) C) :
    Along all A (p >>= f) C :=
  Triple.bind hp hf

/-- What is known of a value is known wherever the reader behind it starts. -/
theorem andThen {Q : α → Prop} {f : α → Parse β} (hp : Along all A p fun a _ => Q a)
    (hf : ∀ a, Q a → Along all Anywhere (f a) C) : Along all A (p >>= f) C :=
  hp.bind fun a s hs => hf a hs.2 s ⟨hs.1, trivial⟩

theorem ite {c : Prop} [Decidable c] {q : Parse α} (hp : c → Along all A p B)
    (hq : ¬c → Along all A q B) : Along all A (if c then p else q) B :=
  Triple.ite hp hq

theorem kind_bind {f : TokenKind → Parse β}
    (h : ∀ k, Along all (fun ts => A ts ∧ At k ts) (f k) C) :
    Along all A (Parse.kind >>= f) C :=
  fun s hs => h s.current.kind s ⟨hs.1, hs.2, rfl⟩

theorem ahead_bind {n : Nat} {f : Token → Parse β}
    (h : ∀ t, Along all (fun ts => A ts ∧ (Stream.mk ts 0).ahead n = t) (f t) C) :
    Along all A (Parse.ahead n >>= f) C :=
  fun s hs => h (s.ahead n) s ⟨hs.1, hs.2, rfl⟩

theorem get_bind {f : Stream → Parse β}
    (h : ∀ u : Stream, Along all (fun ts => A ts ∧ ts = u.rest) (f u) C) :
    Along all A (MonadState.get >>= f) C :=
  fun s hs => h s s ⟨hs.1, hs.2, rfl⟩

theorem dropToken_suffix (ts : List Token) : dropToken ts <:+ ts := by
  rw [← advance_rest ⟨ts, 0⟩]
  exact advance_suffix ⟨ts, 0⟩

/-- A token that is not terminal stands before what is ahead once it is taken. -/
theorem behind_dropToken {ts : List Token} {k : TokenKind} (hk : k.isTerminal = false)
    (hts : ts <:+ all ∧ A ts) (hhead : headKind ts = k) : Behind all A k (dropToken ts) := by
  cases ts with
  | nil => rw [← hhead] at hk; cases hk
  | cons t ts =>
    rw [headKind_cons] at hhead
    rw [dropToken_cons ts (by rw [hhead]; exact hk)]
    exact ⟨t, hhead, hts⟩

theorem advance_bind {f : Unit → Parse β} (hf : Along all Anywhere (f ()) C) :
    Along all A (Parse.advance >>= f) C := by
  refine bind (B := fun _ _ => True) (Triple.advance fun ts hts => ?_) fun _ => hf
  exact ⟨(dropToken_suffix ts).trans hts.1, trivial⟩

/-- Behind a token that is taken. -/
theorem advance_then {k : TokenKind} {f : Unit → Parse β} (hk : k.isTerminal = false)
    (hA : ∀ ts, A ts → At k ts) (hf : Along all (Behind all A k) (f ()) C) :
    Along all A (Parse.advance >>= f) C := by
  refine bind (B := fun _ => Behind all A k) (Triple.advance fun ts hts => ?_) fun _ => hf
  exact ⟨(dropToken_suffix ts).trans hts.1, behind_dropToken hk hts (hA ts hts.2)⟩

theorem check_bind {m : Punctuator} {f : Bool → Parse β}
    (hyes : Along all (fun ts => A ts ∧ At (.punct m) ts) (f true) C)
    (hno : Along all (fun ts => A ts ∧ headKind ts ≠ .punct m) (f false) C) :
    Along all A (Parse.check m >>= f) C := by
  refine bind (B := fun b ts => A ts ∧ (b = true ↔ headKind ts = .punct m))
    (Triple.check fun ts hts => ⟨hts.1, hts.2, decide_eq_true_iff⟩) fun b => ?_
  cases b with
  | true => exact hyes.weaken fun ts hts => ⟨hts.1, hts.2.1 rfl⟩
  | false => exact hno.weaken fun ts hts => ⟨hts.1, fun h => Bool.false_ne_true (hts.2.2 h)⟩

theorem accept_bind {m : Punctuator} {f : Bool → Parse β}
    (hyes : Along all (Behind all A (.punct m)) (f true) C)
    (hno : Along all (fun ts => A ts ∧ headKind ts ≠ .punct m) (f false) C) :
    Along all A (Parse.accept m >>= f) C := by
  refine bind (B := fun b ts => if b = true then Behind all A (.punct m) ts
    else A ts ∧ headKind ts ≠ .punct m) (Triple.accept (fun ts hts hhead => ?_)
    fun ts hts hhead => ?_) fun b => ?_
  · simp only [↓reduceIte]
    exact ⟨(dropToken_suffix ts).trans hts.1, behind_dropToken rfl hts hhead⟩
  · simp only [Bool.false_eq_true, ↓reduceIte]
    exact ⟨hts.1, hts.2, hhead⟩
  · cases b with
    | true => exact hyes
    | false => exact hno

theorem expect_bind {wanted : Expected} {f : Unit → Parse β}
    (hf : Along all Anywhere (f ()) C) : Along all A (Parse.expect wanted >>= f) C := by
  refine bind (B := fun _ _ => True) (Triple.expect (fun ts hts _ => ?_) fun _ _ => trivial)
    fun _ => hf
  exact ⟨(dropToken_suffix ts).trans hts.1, trivial⟩

theorem nested (h : Along all A p B) : Along all A (Parse.nested p) B :=
  Triple.nested h fun _ _ => trivial

/-- Repetition: what is known of the item of each round is known of all items. -/
theorem collect {round : Parse (Parse.Item α)} {P : α → Prop}
    (h : Along all Anywhere round fun item _ =>
      match item with
      | .stop => True
      | .last a => P a
      | .more a => P a) :
    Along all A (Parse.collect round) fun as _ => ∀ a ∈ as, P a := by
  refine anywhere (Triple.collect (Triple.mono h (fun _ h => h) fun item ts hts => ?_)
    fun _ _ => trivial)
  cases item with
  | stop => exact ⟨hts.1, by simp⟩
  | last a => exact ⟨hts.1, List.forall_mem_singleton.2 hts.2⟩
  | more a =>
    exact ⟨⟨hts.1, trivial⟩, fun as us has => ⟨has.1, List.forall_mem_cons.2 ⟨hts.2, has.2⟩⟩⟩

theorem chain {link : α → Parse (Option α)} {A : α → List Token → Prop}
    (h : ∀ a, Along all (A a) (link a) fun next ts =>
      match next with
      | none => B a ts
      | some b => A b ts) (a : α) : Along all (A a) (Parse.chain link a) B := by
  refine Triple.chain (A := fun a ts => ts <:+ all ∧ A a ts) (fun a => ?_)
    (fun _ _ _ => trivial) a
  refine Triple.mono (h a) (fun _ h => h) fun next ts hts => ?_
  cases next <;> exact hts

/-- The tokens that a reader takes, and what it leaves. -/
theorem of_takes {Q : α → List TokenKind → Prop} (h : Takes A p Q) {start : List Token}
    (hstart : A start) : Along all (· = start) p fun a us =>
      ∃ taken, start = taken ++ us ∧ Q a (kinds taken) := by
  rintro s ⟨hs, rfl⟩
  have hp := h s hstart
  cases hps : p s with
  | error e t => trivial
  | ok a t =>
    rw [hps] at hp
    obtain ⟨taken, hrest, -, hq⟩ := hp
    exact ⟨(hrest ▸ List.suffix_append taken t.rest).trans hs, taken, hrest, hq⟩

/-- A reader of which nothing is of interest but that it goes on among the tokens. -/
theorem passes {Q : α → List TokenKind → Prop} (h : Takes A p Q) :
    Along all A p fun _ _ => True :=
  each fun _ _ hts => (of_takes h hts).mono (fun _ h => h) fun _ _ _ _ => trivial

theorem skipBlock_bind {f : Unit → Parse β} (hf : Along all Anywhere (f ()) C) :
    Along all A (Rule.skipBlock >>= f) C :=
  bind (passes Takes.skipBlock) fun _ => hf.anywhere

end Along

/-! ### Arrow functions -/

/-- The body of an arrow function. -/
def Expr.arrowBody? : Expr → Option Body
  | .function .arrow _ _ _ b => some b
  | _ => none

/-- The name of its only parameter and `=>`, which an arrow function without parentheses
begins with. -/
def arrowHead (isAsync : Bool) (name : String) : List TokenKind :=
  kinds (async isAsync) ++ [.identifier name, .punct .arrow]

/-- Whether there is no opening parenthesis among some tokens. -/
def ParenFree (ts : List Token) : Prop := ∀ t ∈ ts, t.kind ≠ .punct .leftParen

theorem ParenFree.headKind_ne {all ts : List Token} (h : ParenFree all) (hts : ts <:+ all) :
    headKind ts ≠ .punct .leftParen := by
  cases ts with
  | nil => intro heq; cases heq
  | cons t ts => exact h t (hts.subset List.mem_cons_self)

/-- Without parentheses there are no lists of parameters. -/
theorem ParenFree.arrowFollows {all ts : List Token} (h : ParenFree all) (hts : ts <:+ all) :
    arrowFollows ts = false := by
  cases ts with
  | nil => rfl
  | cons t ts =>
    have hne : t.kind ≠ .punct .leftParen := h.headKind_ne hts
    simp [TemplateVars.arrowFollows, hne]

theorem Along.not_paren {α : Type} {all : List Token} {A : List Token → Prop} {p : Parse α}
    {B : α → List Token → Prop} (hall : ParenFree all)
    (hA : ∀ ts, A ts → At (.punct .leftParen) ts) : Along all A p B :=
  Along.each fun ts hsuffix hts => absurd (hA ts hts) (hall.headKind_ne hsuffix)

/-- Without parentheses an arrow function is written from the name of its parameter on. -/
theorem Spells.arrow_head {block : List TokenKind → Prop} {e : Expr} {b : Body}
    {ks : List TokenKind} (h : Spells block (expr e) ks) (hbody : e.arrowBody? = some b)
    (hfree : .punct .leftParen ∉ ks) : ∃ isAsync name, arrowHead isAsync name <+: ks := by
  generalize hpart : expr e = part at h
  cases h with
  | parentheses => exact absurd List.mem_cons_self hfree
  | arrow => exact absurd (by simp [enclosed]) hfree
  | arrowName isAsync name =>
    refine ⟨isAsync, name, ?_⟩
    simp [arrowHead]
  | _ => cases hpart <;> cases hbody

/-- Where a reader starts that returns an arrow function. -/
theorem Along.arrow_head {all : List Token} {A : List Token → Prop} {p : Parse Expr}
    (hall : ParenFree all) (h : Takes A p fun e => Written (expr e)) {start : List Token}
    (hstart : A start) : Along all (· = start) p fun e _ =>
      ∀ b, e.arrowBody? = some b → ∃ isAsync name, arrowHead isAsync name <+: kinds start := by
  refine Along.each ?_
  rintro _ hsuffix rfl
  refine (Along.of_takes h hstart).mono (fun _ h => h) fun e us _ hread b hbody => ?_
  obtain ⟨taken, hstart, hwritten⟩ := hread
  have hfree : .punct .leftParen ∉ kinds taken := by
    intro hmem
    obtain ⟨t, ht, hkind⟩ := List.mem_map.1 hmem
    refine hall t (hsuffix.subset ?_) hkind
    rw [hstart]
    exact List.mem_append_left us ht
  obtain ⟨isAsync, name, hhead⟩ := hwritten.arrow_head hbody hfree
  refine ⟨isAsync, name, hhead.trans ?_⟩
  rw [hstart, kinds_append]
  exact List.prefix_append _ _

/-- Where no name is ahead, no arrow function is read. -/
theorem Along.not_arrow {all : List Token} {k : TokenKind} {p : Parse Expr}
    (hall : ParenFree all) (h : Takes (At k) p fun e => Written (expr e))
    (hk : ∀ name, k ≠ .identifier name) :
    Along all (At k) p fun e _ => e.arrowBody? = none := by
  refine Along.each fun start _ hstart => ?_
  refine (Along.arrow_head hall h hstart).mono (fun _ h => h) fun e _ _ hread => ?_
  cases hbody : e.arrowBody? with
  | none => rfl
  | some b =>
    obtain ⟨isAsync, name, rest, hrest⟩ := hread b hbody
    have hfirst : ∃ name, headKind start = .identifier name := by
      cases start with
      | nil => cases isAsync <;> cases hrest
      | cons t ts =>
        rw [kinds_cons] at hrest
        cases isAsync with
        | false => exact ⟨name, (List.cons.inj hrest).1.symm⟩
        | true => exact ⟨"async", (List.cons.inj hrest).1.symm⟩
    obtain ⟨name, hname⟩ := hfirst
    exact absurd (hstart.symm.trans hname) (hk name)

/-! ### What stands behind -/

/-- Whether the last token of an expression is a postfix operator. -/
inductive Expr.EndsInUpdate : Expr → Prop where
  | update (op : UpdateOperator) (argument : Expr) : EndsInUpdate (.update op .after argument)
  | updateBefore (op : UpdateOperator) {argument : Expr} (h : argument.EndsInUpdate) :
      EndsInUpdate (.update op .before argument)
  | unary (op : UnaryOperator) {argument : Expr} (h : argument.EndsInUpdate) :
      EndsInUpdate (.unary op argument)
  | binary (op : BinaryOperator) (left : Expr) {right : Expr} (h : right.EndsInUpdate) :
      EndsInUpdate (.binary op left right)
  | logical (op : LogicalOperator) (left : Expr) {right : Expr} (h : right.EndsInUpdate) :
      EndsInUpdate (.logical op left right)
  | conditional (test consequent : Expr) {alternate : Expr} (h : alternate.EndsInUpdate) :
      EndsInUpdate (.conditional test consequent alternate)
  | assign (op : AssignOperator) (target : Expr) {value : Expr} (h : value.EndsInUpdate) :
      EndsInUpdate (.assign op target value)

/-- Whether no member, call or template follows, nor a postfix operator. -/
def OperandEnds (ts : List Token) : Prop :=
  bindingRank (headKind ts) ≠ 7 ∧
    (bindingRank (headKind ts) = 6 → (ts.headD Stream.endToken).newlineBefore = true)

/-- Whether an expression has been read up to where operators of rank `low` and above have
stopped. -/
structure StopsAt (low : Nat) (e : Expr) (ts : List Token) : Prop where
  operand : e.EndsInUpdate ∨ OperandEnds ts
  rank : bindingRank (headKind ts) < low ∨ 6 ≤ bindingRank (headKind ts)

/-- Whether the expression in the body of an arrow function has been read up to where
assignments have stopped. -/
def BodyStops (e : Expr) (ts : List Token) : Prop :=
  ∀ value, e.arrowBody? = some (.expression value) → StopsAt 2 value ts

/-- What the tokens of a rank are. -/
def OfRank (k : TokenKind) : Nat → Prop
  | 2 => ∃ op, k = .assign op
  | 3 => k = .punct .question
  | 4 => ∃ p op, k.infixOperator? = some (p, op)
  | 5 => k = .punct .starStar
  | 6 => ∃ op, k.updateOperator? = some op
  | 7 => k = .punct .dot ∨ k = .punct .questionDot ∨ k = .punct .leftBracket ∨
      k = .punct .leftParen ∨ (∃ cooked, k = .template cooked) ∨ ∃ cooked, k = .templateHead cooked
  | _ => True

theorem ofRank {k : TokenKind} {rank : Nat} (h : bindingRank k = rank) : OfRank k rank := by
  subst h
  unfold bindingRank
  split
  case h_14 =>
    -- a token that the table does not name has a rank only as an infix operator
    cases hop : k.infixOperator? with
    | none => trivial
    | some x => exact ⟨x.1, x.2, hop⟩
  all_goals simp [OfRank, TokenKind.updateOperator?]

theorem bindingRank_of_updateOperator {k : TokenKind} {op : UpdateOperator}
    (h : k.updateOperator? = some op) : bindingRank k = 6 := by
  unfold TokenKind.updateOperator? at h
  split at h
  · rfl
  · rfl
  · cases h

namespace StopsAt

variable {low : Nat} {e e' : Expr} {ts : List Token}

/-- An operator goes on looking for what its last operand ends with. -/
theorem last (h : StopsAt low e ts) (hends : e.EndsInUpdate → e'.EndsInUpdate) :
    StopsAt low e' ts :=
  ⟨h.operand.imp_left hends, h.rank⟩

theorem mono {high : Nat} (h : StopsAt low e ts) (hle : low ≤ high) : StopsAt high e ts :=
  ⟨h.operand, by have := h.rank; omega⟩

/-- One more rank at which reading has stopped. -/
theorem lower (h : StopsAt (low + 1) e ts) (hrank : bindingRank (headKind ts) ≠ low) :
    StopsAt low e ts :=
  ⟨h.operand, by have := h.rank; omega⟩

end StopsAt

namespace BodyStops

variable {e : Expr} {ts : List Token}

theorem of_none (h : e.arrowBody? = none) : BodyStops e ts := by
  intro value hvalue
  rw [h] at hvalue
  cases hvalue

/-- An arrow function in front of an operator has a block. -/
theorem block (h : BodyStops e ts) {b : Body} (hbody : e.arrowBody? = some b)
    (hlow : 2 ≤ bindingRank (headKind ts)) (hhigh : bindingRank (headKind ts) ≤ 5) :
    b = .block := by
  cases b with
  | block => rfl
  | expression value =>
    have := (h value hbody).rank
    omega

end BodyStops

/-! ### The rules -/

/-- Whether the infix operator ahead, if there is one, has less than some precedence. -/
def InfixBelow (precedence : Nat) (ts : List Token) : Prop :=
  ∀ p op, (headKind ts).infixOperator? = some (p, op) → p < precedence

/-- Where each rule for operators and what stands between them stops. -/
structure Rules.Stop (all : List Token) (r : Rules) : Prop where
  assignment : Along all Anywhere r.assignment (StopsAt 2)
  conditional : Along all Anywhere r.conditional fun e ts => BodyStops e ts ∧ StopsAt 3 e ts
  binary (minPrecedence : Nat) : Along all Anywhere (r.binary minPrecedence) fun e ts =>
    (BodyStops e ts ∧ StopsAt 5 e ts) ∧ InfixBelow minPrecedence ts
  exponent : Along all Anywhere r.exponent fun e ts => BodyStops e ts ∧ StopsAt 5 e ts
  unary : Along all Anywhere r.unary fun e ts => BodyStops e ts ∧ StopsAt 6 e ts
  operand : Along all Anywhere r.operand fun e ts =>
    BodyStops e ts ∧ bindingRank (headKind ts) ≠ 7
  suffixes (allowCalls : Bool) (object : Expr) :
    Along all (BodyStops object) (r.suffixes allowCalls object) fun e ts =>
      BodyStops e ts ∧ (allowCalls = true → bindingRank (headKind ts) ≠ 7)
  primary : Along all Anywhere r.primary BodyStops
  asyncFunction? : Along all (At (.identifier "async")) r.asyncFunction? fun f ts =>
    ∀ e, f = some e → BodyStops e ts
  arrowBody (isAsync : Bool) (params : List Pattern) :
    Along all Anywhere (r.arrowBody isAsync params) BodyStops
  functionExpression (isAsync : Bool) :
    Along all Anywhere (r.functionExpression isAsync) fun e _ => e.arrowBody? = none

namespace Rules.Stop

variable {all : List Token} {r : Rules}

theorem assignmentRule (h : r.Stop all) : Along all Anywhere (Rule.assignment r) (StopsAt 2) := by
  refine .nested (.bind h.conditional fun target => .kind_bind fun k => ?_)
  split
  · refine .advance_bind (.bind h.assignment fun value => .pure fun ts _ hvalue => ?_)
    exact hvalue.last (.assign _ _)
  · next hassign =>
    refine .pure fun ts _ hts => hts.1.2.lower fun hrank => ?_
    obtain ⟨op, hop⟩ := ofRank hrank
    exact hassign op (hts.2.symm.trans hop)

theorem conditionalRule (h : r.Stop all) (hw : r.Writes) :
    Along all Anywhere (Rule.conditional r) fun e ts => BodyStops e ts ∧ StopsAt 3 e ts := by
  refine .bind (h.binary 1) fun test => .accept_bind (.anywhere ?_) (.pure fun ts _ hts => ?_)
  · refine .bind (.passes hw.assignment) fun consequent => .expect_bind ?_
    refine .bind h.assignment fun alternate => .pure fun ts _ halternate => ?_
    exact ⟨.of_none rfl, (halternate.last (.conditional _ _)).mono (by omega)⟩
  · obtain ⟨⟨⟨hbody, hstops⟩, hinfix⟩, hquestion⟩ := hts
    refine ⟨hbody, (hstops.lower fun hrank => ?_).lower fun hrank => ?_⟩
    · -- every infix operator has a precedence of at least one
      obtain ⟨p, op, hop⟩ := ofRank hrank
      have := (TokenKind.precedence_bounds hop).1
      have := hinfix p op hop
      omega
    · exact hquestion (ofRank hrank)

theorem apply_arrowBody (op : InfixOperator) (left right : Expr) :
    (op.apply left right).arrowBody? = none := by
  cases op <;> rfl

theorem apply_endsInUpdate (op : InfixOperator) (left : Expr) {right : Expr}
    (h : right.EndsInUpdate) : (op.apply left right).EndsInUpdate := by
  cases op with
  | binary op => exact .binary op left h
  | logical op => exact .logical op left h

theorem binaryRule (h : r.Stop all) (minPrecedence : Nat) :
    Along all Anywhere (Rule.binary r minPrecedence) fun e ts =>
      (BodyStops e ts ∧ StopsAt 5 e ts) ∧ InfixBelow minPrecedence ts := by
  refine .bind h.exponent (.chain fun left => .kind_bind fun k => ?_)
  split
  · next precedence op hop =>
    refine .ite (fun hlt => .pure fun ts _ hts => ⟨hts.1, fun p op' hop' => ?_⟩) fun _ => ?_
    · rw [show headKind ts = k from hts.2, hop] at hop'
      obtain ⟨rfl, rfl⟩ := Prod.mk.inj (Option.some.inj hop')
      exact hlt
    · refine .advance_bind (.bind (h.binary _) fun right => .pure fun ts _ hright => ?_)
      exact ⟨.of_none (apply_arrowBody op _ _), hright.1.2.last (apply_endsInUpdate op left)⟩
  · next hnone =>
    refine .pure fun ts _ hts => ⟨hts.1, fun p op hop => ?_⟩
    rw [show headKind ts = k from hts.2, hnone] at hop
    cases hop

theorem exponentRule (h : r.Stop all) :
    Along all Anywhere (Rule.exponent r) fun e ts => BodyStops e ts ∧ StopsAt 5 e ts := by
  refine .bind h.unary fun base => .accept_bind (.anywhere ?_) (.pure fun ts _ hts => ?_)
  · refine .bind (.nested h.exponent) fun power => .pure fun ts _ hpower => ?_
    exact ⟨.of_none rfl, hpower.2.last (.binary .exponent _)⟩
  · obtain ⟨⟨hbody, hstops⟩, hpower⟩ := hts
    exact ⟨hbody, hstops.lower fun hrank => hpower (ofRank hrank)⟩

/-- No places ahead is the current token. -/
theorem ahead_current (ts : List Token) :
    (Stream.mk ts 0).ahead 0 = ts.headD Stream.endToken := by
  cases ts <;> rfl

theorem postfixUpdate (argument : Expr) :
    Along all (fun ts => BodyStops argument ts ∧ bindingRank (headKind ts) ≠ 7)
      (Rule.postfixUpdate argument) fun e ts => BodyStops e ts ∧ StopsAt 6 e ts := by
  refine .ahead_bind fun t => ?_
  split
  · next op hop =>
    refine .ite (fun hline => .pure fun ts _ hts => ?_) fun _ => ?_
    · obtain ⟨⟨hbody, hsuffix⟩, rfl⟩ := hts
      rw [ahead_current] at hline
      exact ⟨hbody, .inr ⟨hsuffix, fun _ => hline⟩, by omega⟩
    · exact .advance_bind (.pure fun ts _ _ => ⟨.of_none rfl, .inl (.update op _), by omega⟩)
  · next hnone =>
    refine .pure fun ts _ hts => ?_
    obtain ⟨⟨hbody, hsuffix⟩, rfl⟩ := hts
    refine ⟨hbody, .inr ⟨hsuffix, fun hrank => ?_⟩, by omega⟩
    obtain ⟨op, hop⟩ := ofRank hrank
    rw [ahead_current] at hnone
    cases hnone.symm.trans hop

theorem unaryRule (h : r.Stop all) :
    Along all Anywhere (Rule.unary r) fun e ts => BodyStops e ts ∧ StopsAt 6 e ts := by
  refine .kind_bind fun k => ?_
  split
  · next op _ =>
    refine .advance_bind (.bind (.nested h.unary) fun argument => .pure fun ts _ hts => ?_)
    exact ⟨.of_none rfl, hts.2.last (.unary op)⟩
  · next op _ _ =>
    refine .advance_bind (.bind (.nested h.unary) fun argument => .pure fun ts _ hts => ?_)
    exact ⟨.of_none rfl, hts.2.last (.updateBefore op)⟩
  · exact .bind h.operand.anywhere fun argument => postfixUpdate argument

/-! ### Operands -/

theorem operandRule (h : r.Stop all) (hw : r.Writes) (hall : ParenFree all) :
    Along all Anywhere (Rule.operand r) fun e ts =>
      BodyStops e ts ∧ bindingRank (headKind ts) ≠ 7 := by
  have behind : ∀ base, Along all (BodyStops base) (r.suffixes true base) fun e ts =>
      BodyStops e ts ∧ bindingRank (headKind ts) ≠ 7 :=
    fun base => (h.suffixes true base).mono (fun _ h => h) fun _ _ _ hts => ⟨hts.1, hts.2 rfl⟩
  refine .kind_bind fun k => .ite (fun hnew => ?_) fun _ => .bind h.primary.anywhere behind
  have hconstruction := Along.not_arrow hall hw.construction nofun
  refine .bind (hconstruction.mono (fun ts hts => ?_) fun e ts _ hnone => .of_none hnone) behind
  exact hts.2.trans hnew

theorem suffix (hw : r.Writes) (hall : ParenFree all) (allowCalls : Bool) (object : Expr) :
    Along all (BodyStops object) (Rule.suffix r allowCalls object) fun next ts =>
      match next with
      | none => BodyStops object ts ∧ (allowCalls = true → bindingRank (headKind ts) ≠ 7)
      | some e => BodyStops e ts := by
  -- a link makes a member, a call or a template of the object
  have linked : ∀ {α : Type} {A : List Token → Prop} {p : Parse α}
      {Q : α → List TokenKind → Prop} {f : α → Expr}, Takes A p Q →
      (∀ a, (f a).arrowBody? = none) →
      Along all A (do return some (f (← p))) fun next ts =>
        match next with
        | none => BodyStops object ts ∧ (allowCalls = true → bindingRank (headKind ts) ≠ 7)
        | some e => BodyStops e ts :=
    fun hp hf => .bind (.passes hp) fun a => .pure fun _ _ _ => .of_none (hf a)
  refine .kind_bind fun k => ?_
  split
  · exact .advance_bind (linked Writes.memberName fun _ => rfl)
  · refine .ite (fun hcalls => .pure fun ts _ hts => ⟨hts.1, fun h => ?_⟩) fun _ => ?_
    · simp [h] at hcalls
    · refine .advance_bind (.kind_bind fun k => ?_)
      split
      · exact .not_paren hall fun _ hts => hts.2
      · exact .weaken (linked hw.computedMember fun _ => rfl) fun _ hts => hts.2
      · exact .anywhere (linked Writes.memberName fun _ => rfl)
  · exact .weaken (linked hw.computedMember fun _ => rfl) fun _ hts => hts.2
  · exact .not_paren hall fun _ hts => hts.2
  · exact .anywhere (linked hw.templateLiteral fun _ => rfl)
  · exact .anywhere (linked hw.templateLiteral fun _ => rfl)
  · next hdot hquestion hbracket hparen htemplate hhead =>
    refine .pure fun ts _ hts => ⟨hts.1, fun _ hrank => ?_⟩
    have hk := ofRank hrank
    rw [show headKind ts = k from hts.2] at hk
    rcases hk with h | h | h | h | ⟨cooked, h⟩ | ⟨cooked, h⟩
    · exact hdot h
    · exact hquestion h
    · exact hbracket h
    · exact hparen h
    · exact htemplate cooked h
    · exact hhead cooked h

theorem suffixesRule (hw : r.Writes) (hall : ParenFree all) (allowCalls : Bool) (object : Expr) :
    Along all (BodyStops object) (Rule.suffixes r allowCalls object) fun e ts =>
      BodyStops e ts ∧ (allowCalls = true → bindingRank (headKind ts) ≠ 7) := by
  refine .chain (fun object => ?_) object
  refine (suffix hw hall allowCalls object).mono (fun _ h => h) fun next ts _ hnext => ?_
  cases next <;> exact hnext

theorem nameOrArrow (h : r.Stop all) (name : String) :
    Along all Anywhere (Rule.nameOrArrow r name) BodyStops := by
  refine .ahead_bind fun next => .advance_bind (.ite (fun _ => ?_) fun _ => ?_)
  · exact .advance_bind (h.arrowBody false _)
  · exact .pure fun _ _ _ => .of_none rfl

theorem primaryRule (h : r.Stop all) (hw : r.Writes) (hall : ParenFree all) :
    Along all Anywhere (Rule.primary r) BodyStops := by
  have literal : ∀ {A : List Token → Prop} value, Along all A (do
      Parse.advance
      return Expr.literal value) BodyStops :=
    fun _ => .advance_bind (.pure fun _ _ _ => .of_none rfl)
  have template : ∀ {A : List Token → Prop}, Along all A r.templateLiteral BodyStops := by
    refine .each fun start _ _ => ?_
    refine (Along.of_takes hw.templateLiteral trivial).mono (fun _ h => h) fun e ts _ he => ?_
    obtain ⟨_, -, quasis, substitutions, rfl, -⟩ := he
    exact .of_none rfl
  have marked : ∀ {m : Punctuator} {p : Parse Expr},
      Takes (At (.punct m)) p (fun e => Written (expr e)) →
      Along all (fun ts => Anywhere ts ∧ At (.punct m) ts) p BodyStops :=
    fun hp => (Along.not_arrow hall hp nofun).mono (fun _ hts => hts.2) fun _ _ _ hnone =>
      .of_none hnone
  refine .kind_bind fun k => ?_
  simp only []
  split
  · next name =>
    refine .ite (fun hasync => ?_) fun _ => .bind (.pure (B := fun f ts => ∀ e, f = some e →
      BodyStops e ts) fun _ _ _ => nofun) fun f => ?_
    · refine .bind (h.asyncFunction?.weaken fun ts hts => ?_) fun f => ?_
      · rw [← hasync]
        exact hts.2
      · cases f with
        | none => exact (h.nameOrArrow name).anywhere
        | some function => exact .pure fun _ _ hts => hts function rfl
    · cases f with
      | none => exact (h.nameOrArrow name).anywhere
      | some function => exact .pure fun _ _ hts => hts function rfl
  · exact literal _
  · exact literal _
  · exact literal _
  · exact literal _
  · exact literal _
  · exact literal _
  · exact literal _
  · exact .advance_bind (.pure fun _ _ _ => .of_none rfl)
  · exact .advance_bind (.pure fun _ _ _ => .of_none rfl)
  · exact template
  · exact template
  · exact .not_paren hall fun _ hts => hts.2
  · exact marked hw.arrayLiteral
  · exact marked hw.objectLiteral
  · exact (h.functionExpression false).mono (fun _ _ => trivial) fun _ _ _ hnone => .of_none hnone
  · exact .fail

theorem asyncFunctionRule (h : r.Stop all) (hall : ParenFree all) :
    Along all (At (.identifier "async")) (Rule.asyncFunction? r) fun f ts =>
      ∀ e, f = some e → BodyStops e ts := by
  have found : ∀ {p : Parse Expr}, Along all Anywhere p BodyStops → Along all Anywhere (do
      return some (← p)) fun f ts => ∀ e, f = some e → BodyStops e ts := by
    refine fun hp => .bind hp fun e => .pure fun ts _ hts => ?_
    rintro _ ⟨⟩
    exact hts
  have none : ∀ {A : List Token → Prop}, Along all A (return none) fun (f : Option Expr) ts =>
      ∀ e, f = some e → BodyStops e ts := .pure fun _ _ _ => nofun
  refine .ahead_bind fun next => .ite (fun _ => none) fun _ => ?_
  split
  · refine .advance_bind (found ?_)
    exact (h.functionExpression true).mono (fun _ h => h) fun _ _ _ hnone => .of_none hnone
  · refine .ahead_bind fun _ => .ite (fun _ => ?_) fun _ => none
    exact .advance_bind (.advance_bind (.advance_bind (found (h.arrowBody true _))))
  · refine .get_bind fun u => .ite (fun hfollows => .each fun ts hsuffix hts => ?_) fun _ => none
    have hdrop := hall.arrowFollows ((List.drop_suffix 1 ts).trans hsuffix)
    rw [hts.2, hfollows] at hdrop
    cases hdrop
  · exact none

theorem arrowBodyRule (h : r.Stop all) (isAsync : Bool) (params : List Pattern) :
    Along all Anywhere (Rule.arrowBody r isAsync params) BodyStops := by
  refine .check_bind (.skipBlock_bind (.pure fun _ _ _ => nofun)) (.anywhere ?_)
  refine .bind h.assignment fun e => .pure fun ts _ hts => ?_
  rintro _ ⟨⟩
  exact hts

theorem functionExpressionRule (hw : r.Writes) (isAsync : Bool) :
    Along all Anywhere (Rule.functionExpression r isAsync) fun e _ => e.arrowBody? = none := by
  suffices rest : _ from .advance_bind (.accept_bind (.anywhere rest) (.anywhere rest))
  refine .bind (.passes Writes.functionName) fun name => .anywhere ?_
  refine .bind (.passes hw.parameters) fun params => .skipBlock_bind ?_
  exact .pure fun _ _ _ => rfl

/-- Rules stop there if those they call do. -/
theorem step (h : r.Stop all) (hw : r.Writes) (hall : ParenFree all) : r.step.Stop all where
  assignment := h.assignmentRule
  conditional := h.conditionalRule hw
  binary := h.binaryRule
  exponent := h.exponentRule
  unary := h.unaryRule
  operand := h.operandRule hw hall
  suffixes := suffixesRule hw hall
  primary := h.primaryRule hw hall
  asyncFunction? := h.asyncFunctionRule hall
  arrowBody := h.arrowBodyRule
  functionExpression := functionExpressionRule hw

theorem exhausted : Rules.exhausted.Stop all where
  assignment := .fail
  conditional := .fail
  binary _ := .fail
  exponent := .fail
  unary := .fail
  operand := .fail
  suffixes _ _ := .fail
  primary := .fail
  asyncFunction? := .fail
  arrowBody _ _ := .fail
  functionExpression _ := .fail

end Rules.Stop

/-- Without parentheses, each rule for operators of the grammar stops where the operator
ahead is none of its own. -/
theorem rules_stop {all : List Token} (hall : ParenFree all) (n : Nat) :
    (Grammar.rules n).Stop all := by
  induction n with
  | zero => exact .exhausted
  | succ n ih => exact ih.step (rules_write n) hall

end TemplateVars
