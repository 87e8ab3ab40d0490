/-
Chains of members, calls and templates.

Behind a name or a group any number of links may follow; each takes what is read so far for
its object.  `new` takes the links without calls and `?.` behind it for its callee, and the
arguments behind those, if there are any.

* `FitsBefore` — whether tokens that are read alone are read so in front of others;
* `FitsBefore.reads` — if so, they are, at any depth that is low enough;
* `Link.Written.reads` — one link is read behind any object;
* `Linked.reads` — so are all links, one after the other;
* `complete_links` — a base with links, with and without `new`, is read to its end.

Design notes: the search for `=>` behind a parenthesis counts the brackets in function bodies
that are passed over.  It may leave the part of the expression in which it begins, if they are
not nested, so what it finds there is a hypothesis; `FitsBefore.of_nested` is the case in
which the brackets are nested.
-/
import TemplateVars.Proofs.Grammar.Limit
import TemplateVars.Proofs.Grammar.ReadBack.Members
import TemplateVars.Proofs.Grammar.Trailing

namespace TemplateVars

open Grammar (grammar)
open Takes (Anywhere)

/-! ### Parts of an expression -/

/-- Whether a reader takes all of some tokens at the end of a text, and from every place among
them the search for `=>` finds there what it finds in front of some others. -/
def FitsBefore {α : Type} (behind : List Token) (p : Parse α) (d : Nat) (us : List Token)
    (a : α) : Prop :=
  ∃ final : Token, final.kind = .eof ∧ p ⟨us ++ [final], d⟩ = .ok a ⟨[final], d⟩ ∧
    ∀ vs, vs <:+ us → arrowFollows (vs ++ [final]) = arrowFollows (vs ++ behind)

/-- What is read at some depth is read wherever no more levels are open. -/
theorem LimitOnly.reads {α : Type} {p : Parse α} (h : LimitOnly p) {ts after : List Token}
    {d : Nat} {a : α} (hd : d ≤ maxDepth) (hrun : p ⟨ts, d⟩ = .ok a ⟨after, d⟩) :
    Reads (maxDepth - d) p ts a after := by
  intro d'
  rcases Nat.lt_or_ge d d' with hlt | hge
  · cases h ts d d' (Nat.le_of_lt hlt) with
    | ok b rest fewer more =>
      cases hrun.symm.trans fewer
      exact .inl more
    | error e rest fewer more => exact nomatch hrun.symm.trans fewer
    | tooDeep e t cause more => exact .inr ⟨by omega, e, t, more, cause⟩
  · cases h ts d' d hge with
    | ok b rest fewer more =>
      cases hrun.symm.trans more
      exact .inl fewer
    | error e rest fewer more => exact nomatch hrun.symm.trans more
    | tooDeep e t cause more => exact nomatch hrun.symm.trans more

namespace FitsBefore

variable {α : Type} {p : Parse α} {d : Nat} {us more : List Token} {a : α} {next : Token}

/-- Tokens that are taken in front of the end are not terminal. -/
theorem live {Q : α → List TokenKind → Prop} (htakes : Takes Anywhere p Q) {final : Token}
    (hrun : p ⟨us ++ [final], d⟩ = .ok a ⟨[final], d⟩) : Live us ∧ Q a (kinds us) := by
  obtain ⟨taken, hrest, hlive, hq⟩ :=
    htakes.run_ok (s := ⟨us ++ [final], d⟩) trivial (Parse.run_ok_iff.2 hrun)
  obtain rfl : us = taken := List.append_cancel_right hrest
  exact ⟨hlive, hq⟩

/-- Tokens whose brackets are nested fit in front of what goes on with no operand. -/
theorem of_nested {Q : α → List TokenKind → Prop} (htakes : Takes Anywhere p Q)
    (hnext : next.kind.Separates) {final : Token} (hfinal : final.kind = .eof)
    (hrun : p ⟨us ++ [final], d⟩ = .ok a ⟨[final], d⟩) (h : Nested brackets (kinds us)) :
    FitsBefore (next :: more) p d us a := by
  let E : Endings := ⟨final, next, more, hfinal, hnext⟩
  exact ⟨final, hfinal, hrun, (E.agrees (live htakes hrun).1 h).arrow⟩

/-- Tokens that fit in front of what goes on with no operand are read there. -/
theorem reads {Q : α → List TokenKind → Prop} (h : FitsBefore (next :: more) p d us a)
    (hnext : next.kind.Separates) (hd : d ≤ maxDepth) (htakes : Takes Anywhere p Q)
    (hlimit : LimitOnly p)
    (hkeeps : ∀ E : Endings, E.next = next → E.Keeps false Anywhere p) :
    Reads (maxDepth - d) p (us ++ next :: more) a (next :: more) := by
  obtain ⟨final, hfinal, hrun, harrow⟩ := h
  let E : Endings := ⟨final, next, more, hfinal, hnext⟩
  obtain ⟨vs, -, hrest, hlong⟩ :=
    hkeeps E rfl us d a _ ⟨(live htakes hrun).1, harrow⟩ trivial hrun
  obtain rfl : vs = [] := List.self_eq_append_left.1 hrest
  exact hlimit.reads hd (hlong nofun)

variable {e : Expr}

theorem sequence (h : FitsBefore (next :: more) grammar.sequence d us e)
    (hnext : next.kind.Separates) (hcomma : next.kind ≠ .punct .comma) (hd : d ≤ maxDepth) :
    Reads (maxDepth - d) grammar.sequence (us ++ next :: more) e (next :: more) :=
  h.reads hnext hd (rules_write _).sequence (rules_limit_only _ .sequence) fun E hE =>
    (grammar_keeps E _).sequence (.inr (hE ▸ hcomma))

theorem argument (h : FitsBefore (next :: more) (Rule.spreadable grammar) d us e)
    (hnext : next.kind.Separates) (hd : d ≤ maxDepth) :
    Reads (maxDepth - d) (Rule.spreadable grammar) (us ++ next :: more) e (next :: more) :=
  h.reads hnext hd (rules_write _).spreadable (rules_limit_only _).spreadable fun E _ =>
    (grammar_keeps E _).spreadable

end FitsBefore

/-! ### Links -/

/-- A member, call or template behind an object. -/
inductive Link where
  | named (name : String) (optional : Bool)
  | computed (property : Expr) (optional : Bool)
  | call (arguments : List Expr) (optional : Bool)
  | tagged (quasis : List String) (substitutions : List Expr)

namespace Link

/-- The object with a link. -/
def apply (object : Expr) : Link → Expr
  | named name optional => .member object (.fixed name) optional
  | computed property optional => .member object (.computed property) optional
  | call arguments optional => .call object arguments optional
  | tagged quasis substitutions => .tagged object (.template quasis substitutions)

/-- Whether a link may stand in the callee of `new`. -/
def InCallee : Link → Prop
  | named _ optional => optional = false
  | computed _ optional => optional = false
  | call _ _ => False
  | tagged _ _ => True

end Link

/-- The tokens of arguments with commas between them, and perhaps one behind the last. -/
inductive ArgumentList (d : Nat) (behind : List Token) : List Expr → List Token → Prop where
  | nil : ArgumentList d behind [] []
  | last {a : Expr} {us : List Token} (h : FitsBefore behind (Rule.spreadable grammar) d us a) :
      ArgumentList d behind [a] us
  | more {a : Expr} {as : List Expr} {us ts : List Token} {comma : Token}
      (h : FitsBefore (comma :: (ts ++ behind)) (Rule.spreadable grammar) d us a)
      (hcomma : comma.kind = .punct .comma) (hrest : ArgumentList d behind as ts) :
      ArgumentList d behind (a :: as) (us ++ comma :: ts)

/-- The tokens of arguments in parentheses. -/
def ArgumentGroup (d : Nat) (behind : List Token) (as : List Expr) (ts : List Token) : Prop :=
  ∃ opening inner closing, ts = opening :: (inner ++ [closing]) ∧
    opening.kind = .punct .leftParen ∧ closing.kind = .punct .rightParen ∧
    ArgumentList d (closing :: behind) as inner

/-- The tokens of substitutions with the piece of the template behind each. -/
inductive PieceList (d : Nat) (behind : List Token) :
    List String → List Expr → List Token → Prop where
  | last {e : Expr} {us : List Token} {tail : Token} {cooked : String}
      (h : FitsBefore (tail :: behind) grammar.sequence d us e)
      (htail : tail.kind = .templateTail cooked) :
      PieceList d behind [cooked] [e] (us ++ [tail])
  | more {e : Expr} {es : List Expr} {quasis : List String} {us ts : List Token} {middle : Token}
      {cooked : String} (h : FitsBefore (middle :: (ts ++ behind)) grammar.sequence d us e)
      (hmiddle : middle.kind = .templateMiddle cooked) (hrest : PieceList d behind quasis es ts) :
      PieceList d behind (cooked :: quasis) (e :: es) (us ++ middle :: ts)

/-- The tokens of a template. -/
inductive TemplateTokens (d : Nat) (behind : List Token) :
    List String → List Expr → List Token → Prop where
  | whole {t : Token} {cooked : String} (ht : t.kind = .template cooked) :
      TemplateTokens d behind [cooked] [] [t]
  | parts {head : Token} {cooked : String} {quasis : List String} {es : List Expr}
      {ts : List Token} (hhead : head.kind = .templateHead cooked)
      (h : PieceList d behind quasis es ts) :
      TemplateTokens d behind (cooked :: quasis) es (head :: ts)

/-- The tokens of a link in front of some others. -/
inductive Link.Written (d : Nat) (behind : List Token) : Link → List Token → Prop where
  | named {dot t : Token} {name : String} (optional : Bool)
      (hdot : dot.kind = .punct (if optional then .questionDot else .dot))
      (ht : t.kind.NamesMember name) : Link.Written d behind (.named name optional) [dot, t]
  | computed {dots us : List Token} {opening closing : Token} {e : Expr} (optional : Bool)
      (hdots : kinds dots = perhaps optional .questionDot)
      (hopening : opening.kind = .punct .leftBracket)
      (hclosing : closing.kind = .punct .rightBracket)
      (h : FitsBefore (closing :: behind) grammar.sequence d us e) :
      Link.Written d behind (.computed e optional) (dots ++ opening :: (us ++ [closing]))
  | call {dots ts : List Token} {as : List Expr} (optional : Bool)
      (hdots : kinds dots = perhaps optional .questionDot) (h : ArgumentGroup d behind as ts) :
      Link.Written d behind (.call as optional) (dots ++ ts)
  | tagged {quasis : List String} {es : List Expr} {ts : List Token}
      (h : TemplateTokens d behind quasis es ts) : Link.Written d behind (.tagged quasis es) ts

/-- The tokens of links in front of some others. -/
inductive Linked (d : Nat) (behind : List Token) : List Link → List Token → Prop where
  | nil : Linked d behind [] []
  | cons {link : Link} {links : List Link} {ts us : List Token}
      (h : link.Written d (us ++ behind) ts) (hrest : Linked d behind links us) :
      Linked d behind (link :: links) (ts ++ us)

/-- Whether a link begins with `?.`. -/
def Link.IsOptional : Link → Prop
  | named _ optional => optional = true
  | computed _ optional => optional = true
  | call _ optional => optional = true
  | tagged _ _ => False

/-- The tokens of the arguments of `new` in front of some links.  There may be none if the
links do not go on with the callee and are no call. -/
inductive NewArguments (d : Nat) (behind : List Token) (links : List Link) :
    List Expr → List Token → Prop where
  | given {as : List Expr} {ts : List Token} (h : ArgumentGroup d behind as ts) :
      NewArguments d behind links as ts
  | absent (h : ∀ link ∈ links.head?, link.IsOptional) : NewArguments d behind links [] []

/-- The tokens of a name other than `async` or of a group, in front of some others. -/
inductive ChainBase (d : Nat) (behind : List Token) : Expr → List Token → Prop where
  | name {t : Token} {name : String} (ht : t.kind = .identifier name) (hname : name ≠ "async") :
      ChainBase d behind (.identifier name) [t]
  | group {opening closing : Token} {us : List Token} {e : Expr}
      (hopening : opening.kind = .punct .leftParen) (hclosing : closing.kind = .punct .rightParen)
      (h : FitsBefore (closing :: behind) grammar.sequence d us e)
      (harrow : arrowFollows (opening :: (us ++ closing :: behind)) = false) :
      ChainBase d behind e (opening :: (us ++ [closing]))

/-! ### Reading -/

theorem TokenKind.Separates.of_mark {k : TokenKind} {m : Punctuator} (h : k = .punct m)
    (hm : m ∈ separatorMarks) : k.Separates := by
  rw [h]
  exact hm

/-- The name of a member opens no bracket. -/
theorem TokenKind.NamesMember.ne_opening {k : TokenKind} {name : String} (h : k.NamesMember name)
    (pair : Punctuator × Punctuator) (hpair : pair ∈ brackets) : k ≠ .punct pair.1 :=
  ((free_of_plain (plain_of_member h)).2 pair hpair).1

/-- What matches begins with nothing that closes a group. -/
theorem Matched.head_ne {block : List TokenKind → Prop} {k : TokenKind} {ks : List TokenKind}
    (h : Matched block (k :: ks)) : k ≠ .punct .rightParen := by
  cases h with
  | plain hk =>
    rintro rfl
    exact absurd hk (by decide)
  | group hp =>
    intro heq
    rw [TokenKind.punct.inj heq] at hp
    exact absurd rfl (brackets_apart _ hp (.leftParen, .rightParen) (by decide))
  | template => exact nofun
  | body => exact nofun

section

variable {d : Nat} {behind ts : List Token}

/-- An argument begins with nothing that closes the list. -/
theorem FitsBefore.argument_head {us : List Token} {a : Expr}
    (h : FitsBefore behind (Rule.spreadable grammar) d us a) (rest : List Token) :
    headKind (us ++ rest) ≠ .punct .rightParen := by
  obtain ⟨final, -, hrun, -⟩ := h
  obtain ⟨-, hwritten⟩ := live (rules_write _).spreadable hrun
  cases us with
  | nil => exact absurd rfl (hwritten.ne_nil rfl)
  | cons t us => exact (show Matched _ _ from hwritten.matches).head_ne

theorem ArgumentList.reads {closing : Token} {as : List Expr}
    (h : ArgumentList d (closing :: behind) as ts) (hclosing : closing.kind = .punct .rightParen)
    (hd : d ≤ maxDepth) :
    Reads (maxDepth - d) (Parse.collect do
        if ← Parse.check .rightParen then return .stop
        let value ← Rule.spreadable grammar
        if ← Parse.accept .comma then return .more value else return .last value)
      (ts ++ closing :: behind) as (closing :: behind) := by
  have hseparates : closing.kind.Separates := .of_mark hclosing (by decide)
  induction h with
  | nil => exact .collect_stop (.check_yes hclosing (.pure _ _ _))
  | last h =>
    have hend : closing.kind ≠ .punct .comma := by
      rw [hclosing]
      decide
    refine .collect_last (.check_no (h.argument_head _) ?_)
    exact .bind (h.argument hseparates hd) (.accept_no hend (.pure _ _ _))
  | @more a as us ts comma h hcomma _ ih =>
    have hseparates : comma.kind.Separates := .of_mark hcomma (by decide)
    rw [List.append_assoc, List.cons_append]
    refine .collect_more (.check_no (h.argument_head _) ?_) ?_ ih
    · exact .bind (h.argument hseparates hd) (.accept_yes hcomma (.pure _ _ _))
    · simp only [List.length_append, List.length_cons]
      omega

theorem ArgumentGroup.reads {as : List Expr} (h : ArgumentGroup d behind as ts)
    (hd : d ≤ maxDepth) : Reads (maxDepth - d) grammar.arguments (ts ++ behind) as behind := by
  obtain ⟨opening, inner, closing, rfl, hopening, hclosing, hinner⟩ := h
  rw [List.cons_append, List.append_assoc]
  refine .unfold (·.arguments) (.advance_of hopening rfl ?_)
  exact .bind (hinner.reads hclosing hd) (.expect_bind hclosing (.pure _ _ _))

theorem PieceList.length_eq {quasis : List String} {es : List Expr}
    (h : PieceList d behind quasis es ts) : quasis.length = es.length := by
  induction h with
  | last => rfl
  | more _ _ _ ih => exact congrArg Nat.succ ih

theorem PieceList.reads {quasis : List String} {es : List Expr}
    (h : PieceList d behind quasis es ts) (hd : d ≤ maxDepth) :
    Reads (maxDepth - d) (Parse.collect (Rule.substitution grammar)) (ts ++ behind)
      (es.zip quasis) behind := by
  induction h with
  | @last e us tail cooked h htail =>
    have hseparates : tail.kind.Separates := by
      rw [htail]
      trivial
    rw [List.append_assoc]
    refine .collect_last (.bind (h.sequence hseparates (by rw [htail]; nofun) hd) (.kind_bind ?_))
    rw [headKind_cons, htail]
    exact .advance_of htail rfl (.pure _ _ _)
  | @more e es quasis us ts middle cooked h hmiddle _ ih =>
    have hseparates : middle.kind.Separates := by
      rw [hmiddle]
      trivial
    rw [List.append_assoc, List.cons_append]
    refine .collect_more
      (.bind (h.sequence hseparates (by rw [hmiddle]; nofun) hd) (.kind_bind ?_)) ?_ ih
    · rw [headKind_cons, hmiddle]
      exact .advance_of hmiddle rfl (.pure _ _ _)
    · simp only [List.length_append, List.length_cons]
      omega

theorem TemplateTokens.reads {quasis : List String} {es : List Expr}
    (h : TemplateTokens d behind quasis es ts) (hd : d ≤ maxDepth) :
    Reads (maxDepth - d) grammar.templateLiteral (ts ++ behind) (.template quasis es) behind := by
  refine .unfold (·.templateLiteral) (.kind_bind ?_)
  cases h with
  | whole ht =>
    rw [List.singleton_append, headKind_cons, ht]
    exact .advance_of ht rfl (.pure _ _ _)
  | parts hhead h =>
    rw [List.cons_append, headKind_cons, hhead]
    refine .advance_of hhead rfl (.bind (h.reads hd) ?_)
    rw [List.map_snd_zip (Nat.le_of_eq h.length_eq),
      List.map_fst_zip (Nat.le_of_eq h.length_eq.symm)]
    exact .pure _ _ _

/-- The mark in front of an optional link, where it is one. -/
theorem dots_eq {dots : List Token} {optional : Bool}
    (h : kinds dots = perhaps optional .questionDot) :
    (optional = false ∧ dots = []) ∨
      (optional = true ∧ ∃ dot : Token, dots = [dot] ∧ dot.kind = .punct .questionDot) := by
  cases optional with
  | false => exact .inl ⟨rfl, List.map_eq_nil_iff.1 h⟩
  | true => exact .inr ⟨rfl, List.map_eq_singleton_iff.1 h⟩

namespace Link

variable {link : Link} {allowCalls : Bool}

/-- A link begins with a token that goes on with a chain. -/
theorem Written.head (h : link.Written d behind ts) :
    ∃ t rest, ts = t :: rest ∧ bindingRank t.kind = 7 := by
  cases h with
  | @named dot t name optional hdot =>
    refine ⟨dot, _, rfl, ?_⟩
    rw [hdot]
    cases optional <;> rfl
  | @computed dots us opening _ _ optional hdots hopening =>
    obtain ⟨-, rfl⟩ | ⟨-, dot, rfl, hdot⟩ := dots_eq hdots
    · exact ⟨opening, _, rfl, by rw [hopening]; rfl⟩
    · exact ⟨dot, _, rfl, by rw [hdot]; rfl⟩
  | call optional hdots h =>
    obtain ⟨-, rfl⟩ | ⟨-, dot, rfl, hdot⟩ := dots_eq hdots
    · obtain ⟨opening, _, _, rfl, hopening, -⟩ := h
      exact ⟨opening, _, rfl, by rw [hopening]; rfl⟩
    · exact ⟨dot, _, rfl, by rw [hdot]; rfl⟩
  | tagged h =>
    cases h with
    | whole ht => exact ⟨_, _, rfl, by rw [ht]; rfl⟩
    | parts hhead => exact ⟨_, _, rfl, by rw [hhead]; rfl⟩

theorem reads_named {dot t : Token} {name : String} (optional : Bool)
    (hdot : dot.kind = .punct (if optional then .questionDot else .dot))
    (ht : t.kind.NamesMember name) (hcalls : allowCalls = true ∨ optional = false) (k : Nat)
    (object : Expr) :
    Reads k (Rule.suffix grammar allowCalls object) (dot :: t :: behind)
      (some (.member object (.fixed name) optional)) behind := by
  have hname := reads_memberName k ht behind
  refine .kind_bind ?_
  rw [headKind_cons, hdot]
  cases optional with
  | false => exact .advance_of hdot rfl (.bind hname (.pure _ _ _))
  | true =>
    obtain rfl := hcalls.resolve_right nofun
    refine .advance_of hdot rfl (.kind_bind ?_)
    rw [headKind_cons]
    split
    · next h => exact absurd h (ht.ne_opening (.leftParen, .rightParen) (by decide))
    · next h => exact absurd h (ht.ne_opening (.leftBracket, .rightBracket) (by decide))
    · exact .bind hname (.pure _ _ _)

theorem reads_computed {dots us : List Token} {opening closing : Token} {e : Expr}
    {optional : Bool} (hdots : kinds dots = perhaps optional .questionDot)
    (hopening : opening.kind = .punct .leftBracket)
    (hclosing : closing.kind = .punct .rightBracket)
    (h : FitsBefore (closing :: behind) grammar.sequence d us e) (hd : d ≤ maxDepth)
    (hcalls : allowCalls = true ∨ optional = false) (object : Expr) :
    Reads (maxDepth - d) (Rule.suffix grammar allowCalls object)
      (dots ++ opening :: (us ++ closing :: behind))
      (some (.member object (.computed e) optional)) behind := by
  have hproperty : Reads (maxDepth - d) (Rule.computedMember grammar)
      (opening :: (us ++ closing :: behind)) (.computed e) behind := by
    have hcomma : closing.kind ≠ .punct .comma := by rw [hclosing]; decide
    refine .advance_of hopening rfl ?_
    refine .bind (h.sequence (.of_mark hclosing (by decide)) hcomma hd) ?_
    exact .expect_bind hclosing (.pure _ _ _)
  refine .kind_bind ?_
  obtain ⟨rfl, rfl⟩ | ⟨rfl, dot, rfl, hdot⟩ := dots_eq hdots
  · rw [List.nil_append, headKind_cons, hopening]
    exact .bind hproperty (.pure _ _ _)
  · obtain rfl := hcalls.resolve_right nofun
    rw [List.singleton_append, headKind_cons, hdot]
    refine .advance_of hdot rfl (.kind_bind ?_)
    rw [headKind_cons, hopening]
    exact .bind hproperty (.pure _ _ _)

theorem reads_call {dots : List Token} {as : List Expr} {optional : Bool}
    (hdots : kinds dots = perhaps optional .questionDot) (h : ArgumentGroup d behind as ts)
    (hd : d ≤ maxDepth) (object : Expr) :
    Reads (maxDepth - d) (Rule.suffix grammar true object) (dots ++ (ts ++ behind))
      (some (.call object as optional)) behind := by
  have harguments := h.reads hd
  obtain ⟨opening, inner, closing, rfl, hopening, -, -⟩ := h
  refine .kind_bind ?_
  obtain ⟨rfl, rfl⟩ | ⟨rfl, dot, rfl, hdot⟩ := dots_eq hdots
  · rw [List.nil_append, List.cons_append, headKind_cons, hopening]
    exact .bind harguments (.pure _ _ _)
  · rw [List.singleton_append, headKind_cons, hdot]
    refine .advance_of hdot rfl (.kind_bind ?_)
    rw [List.cons_append, headKind_cons, hopening]
    exact .bind harguments (.pure _ _ _)

theorem reads_tagged {quasis : List String} {es : List Expr}
    (h : TemplateTokens d behind quasis es ts) (hd : d ≤ maxDepth) (object : Expr) :
    Reads (maxDepth - d) (Rule.suffix grammar allowCalls object) (ts ++ behind)
      (some (.tagged object (.template quasis es))) behind := by
  have htemplate := h.reads hd
  refine .kind_bind ?_
  cases h with
  | whole ht =>
    rw [List.singleton_append, headKind_cons, ht]
    exact .bind htemplate (.pure _ _ _)
  | parts hhead =>
    rw [List.cons_append, headKind_cons, hhead]
    exact .bind htemplate (.pure _ _ _)

/-- A link is read behind any object; one with a call or `?.` only where calls are allowed. -/
theorem Written.reads (h : link.Written d behind ts) (hd : d ≤ maxDepth)
    (hcalls : allowCalls = true ∨ link.InCallee) (object : Expr) :
    Reads (maxDepth - d) (Rule.suffix grammar allowCalls object) (ts ++ behind)
      (some (link.apply object)) behind := by
  cases h with
  | named optional hdot ht => exact reads_named optional hdot ht hcalls _ object
  | computed optional hdots hopening hclosing h =>
    rw [List.append_assoc, List.cons_append, List.append_assoc]
    exact reads_computed hdots hopening hclosing h hd hcalls object
  | call optional hdots h =>
    obtain rfl : allowCalls = true := hcalls.resolve_right id
    rw [List.append_assoc]
    exact reads_call hdots h hd object
  | tagged h => exact reads_tagged h hd object

end Link

/-- Links are read one after the other, and then what is behind them goes on. -/
theorem Linked.reads {links : List Link} (h : Linked d behind links ts) (hd : d ≤ maxDepth)
    {allowCalls : Bool} (hcalls : allowCalls = true ∨ ∀ link ∈ links, link.InCallee)
    {object e : Expr} {after : List Token}
    (hrest : Reads (maxDepth - d) (Parse.chain (Rule.suffix grammar allowCalls)
      (links.foldl Link.apply object)) behind e after) :
    Reads (maxDepth - d) (Parse.chain (Rule.suffix grammar allowCalls) object) (ts ++ behind) e
      after := by
  induction h generalizing object with
  | nil => exact hrest
  | @cons link links ts us h _ ih =>
    have hlink : allowCalls = true ∨ link.InCallee :=
      hcalls.imp_right fun hall => hall link List.mem_cons_self
    have hlinks : allowCalls = true ∨ ∀ l ∈ links, l.InCallee :=
      hcalls.imp_right fun hall l hl => hall l (List.mem_cons_of_mem link hl)
    have hne : ts ≠ [] := by
      obtain ⟨t, rest, rfl, -⟩ := h.head
      exact List.cons_ne_nil t rest
    rw [List.append_assoc]
    exact .chain_link (h.reads hd hlink object) (length_lt_append hne _) (ih hlinks hrest)

/-! ### Bases -/

/-- Whether there are tokens, the first of which is not `=>`. -/
def BehindBase : List Token → Prop
  | [] => False
  | t :: _ => t.kind ≠ .punct .arrow

theorem ChainBase.head {base : Expr} {p : List Token} (h : ChainBase d behind base p)
    (rest : List Token) :
    StartsPrimary (headKind (p ++ rest)) ∧ headKind (p ++ rest) ≠ .punct .dot := by
  cases h with
  | name ht =>
    rw [List.singleton_append, headKind_cons, ht]
    exact ⟨startsPrimary_identifier _, nofun⟩
  | group hopening =>
    rw [List.cons_append, headKind_cons, hopening]
    exact ⟨startsPrimary_leftParen, by decide⟩

theorem ChainBase.reads {base : Expr} {p : List Token} (h : ChainBase d behind base p)
    (hd : d ≤ maxDepth) (hbehind : BehindBase behind) :
    Reads (maxDepth - d) grammar.primary (p ++ behind) base behind := by
  cases h with
  | name ht hname =>
    cases behind with
    | nil => exact hbehind.elim
    | cons next rest =>
      have hafter : StandsAlone _ (next :: rest) := ⟨hbehind, fun h => absurd h hname⟩
      exact reads_aloneName ht hafter _
  | @group opening closing us e hopening hclosing h harrow =>
    have hcomma : closing.kind ≠ .punct .comma := by rw [hclosing]; decide
    rw [List.cons_append, List.append_assoc]
    exact .group hopening hclosing harrow (h.sequence (.of_mark hclosing (by decide)) hcomma hd)

theorem Linked.behindBase {links : List Link} (h : Linked d behind links ts)
    (hbehind : BehindBase behind) : BehindBase (ts ++ behind) := by
  cases h with
  | nil => exact hbehind
  | cons h =>
    obtain ⟨t, rest, rfl, hrank⟩ := h.head
    intro harrow
    rw [harrow] at hrank
    exact absurd hrank (by decide)

theorem ArgumentGroup.head {as : List Expr} (h : ArgumentGroup d behind as ts)
    (rest : List Token) : headKind (ts ++ rest) = .punct .leftParen := by
  obtain ⟨opening, _, _, rfl, hopening, -⟩ := h
  exact hopening

theorem NewArguments.behindBase {links : List Link} {as : List Expr}
    (h : NewArguments d behind links as ts) (hbehind : BehindBase behind) :
    BehindBase (ts ++ behind) := by
  cases h with
  | absent => exact hbehind
  | given h =>
    obtain ⟨opening, _, _, rfl, hopening, -⟩ := h
    intro harrow
    exact nomatch hopening.symm.trans harrow

/-- A base with links is read as an operand where an expression ends. -/
theorem ChainBase.reads_operand {base : Expr} {p : List Token} {links : List Link}
    (h : ChainBase d (ts ++ behind) base p) (hlinks : Linked d behind links ts)
    (hd : d ≤ maxDepth) (hbehind : BehindBase behind) (hrank : bindingRank (headKind behind) < 7) :
    Reads (maxDepth - d) grammar.operand (p ++ (ts ++ behind)) (links.foldl Link.apply base)
      behind := by
  refine .unfold (·.operand) (.kind_bind (.ite_neg (h.head _).1.not_new ?_))
  refine .bind (h.reads hd (hlinks.behindBase hbehind)) (.unfold (fun r => r.suffixes true base) ?_)
  exact hlinks.reads hd (.inl rfl) (.chain_stop (.suffix_stop hrank _ true _))

/-! ### Constructions -/

/-- The links of a callee end at a call, at `?.` and at the end. -/
theorem suffix_callee_stop (h : headKind behind = .punct .leftParen ∨
      headKind behind = .punct .questionDot ∨ headKind behind = .eof) (k : Nat) (callee : Expr) :
    Reads k (Rule.suffix grammar false callee) behind none behind := by
  refine .kind_bind ?_
  rcases h with h | h | h
  · rw [h]
    exact .pure k none behind
  · rw [h]
    exact .pure k none behind
  · rw [h]
    exact .pure k none behind

theorem Link.Written.questionDot {link : Link} (h : link.Written d behind ts)
    (hoptional : link.IsOptional) (rest : List Token) :
    headKind (ts ++ rest) = .punct .questionDot := by
  have hdot : ∀ {dots : List Token} {optional : Bool} (us : List Token),
      kinds dots = perhaps optional .questionDot → optional = true →
        headKind (dots ++ us ++ rest) = .punct .questionDot := by
    rintro dots optional us hdots rfl
    obtain ⟨hfalse, -⟩ | ⟨-, dot, rfl, hdot⟩ := dots_eq hdots
    · exact nomatch hfalse
    · exact hdot
  cases h with
  | named optional hdot =>
    obtain rfl : optional = true := hoptional
    exact hdot
  | computed optional hdots => exact hdot _ hdots hoptional
  | call optional hdots => exact hdot _ hdots hoptional
  | tagged => exact hoptional.elim

/-- `new` takes the links behind it that are no calls, and then its arguments. -/
theorem ChainBase.reads_construction {base : Expr} {p ss as : List Token} {links later : List Link}
    {arguments : List Expr} {new : Token} (hnew : new.kind = .keyword .new)
    (h : ChainBase (d + 1) (ss ++ (as ++ behind)) base p)
    (hlinks : Linked (d + 1) (as ++ behind) links ss) (hcallee : ∀ link ∈ links, link.InCallee)
    (ha : NewArguments (d + 1) behind later arguments as) (hd : d < maxDepth)
    (hbehind : BehindBase behind)
    (hlater : (∀ link ∈ later.head?, link.IsOptional) →
      headKind behind = .punct .questionDot ∨ headKind behind = .eof) :
    Reads (maxDepth - d) grammar.construction (new :: (p ++ (ss ++ (as ++ behind))))
      (.new (links.foldl Link.apply base) arguments) behind := by
  have hd' : d + 1 ≤ maxDepth := hd
  obtain ⟨hstart, hdot⟩ := h.head (ss ++ (as ++ behind))
  have hvalid : ∀ e, headKind (new :: (p ++ (ss ++ (as ++ behind)))) ≠ .invalid e := by
    rw [headKind_cons, hnew]
    exact nofun
  have hstop : ∀ callee, Reads (maxDepth - (d + 1)) (Rule.suffix grammar false callee)
      (as ++ behind) none (as ++ behind) := by
    refine suffix_callee_stop ?_ _
    cases ha with
    | given ha => exact .inl (ha.head behind)
    | absent hoptional => exact .inr (hlater hoptional)
  have hprimary := h.reads hd' (hlinks.behindBase (ha.behindBase hbehind))
  have hsuffixes : Reads (maxDepth - (d + 1)) (grammar.suffixes false base) (ss ++ (as ++ behind))
      (links.foldl Link.apply base) (as ++ behind) :=
    .unfold (fun r => r.suffixes false base) (hlinks.reads hd' (.inr hcallee)
      (.chain_stop (hstop _)))
  -- a level is open for the whole construction
  have hconstruction : Reads (maxDepth - (d + 1) + 1) grammar.construction
      (new :: (p ++ (ss ++ (as ++ behind)))) (.new (links.foldl Link.apply base) arguments)
      behind := by
    refine .unfold (·.construction) (.nested hvalid (.advance_of hnew rfl ?_))
    refine .accept_no hdot (.kind_bind (.ite_neg hstart.not_new ?_))
    refine .bind hprimary (.bind hsuffixes ?_)
    cases ha with
    | given ha => exact .check_yes (ha.head behind) (.bind (ha.reads hd') (.pure _ _ _))
    | absent hoptional =>
      refine .check_no (fun hparen => ?_) (.pure _ _ _)
      rcases hlater hoptional with h | h
      · exact nomatch hparen.symm.trans h
      · exact nomatch hparen.symm.trans h
  exact hconstruction.mono (by omega)

end

/-! ### Whole expressions -/

section

variable {last : Token} (hlast : last.kind = .eof)
include hlast

theorem behindBase_end : BehindBase [last] := by
  intro harrow
  exact nomatch hlast.symm.trans harrow

theorem bindingRank_end : bindingRank (headKind [last]) = 0 := by
  rw [headKind_cons, hlast]
  rfl

/-- A name or a group with links of any number and kind is read from its first link to its
last; and so is `new` with a callee, which takes the links behind it that are no calls and
have no `?.`, with the first arguments behind those, if there are any, and with links of any
number and kind.  What is read in the parts of the expression is what is read there alone, if
the search for `=>` finds there what it finds alone. -/
theorem complete_links :
    (∀ {base : Expr} {p ts : List Token} {links : List Link},
      ChainBase 1 (ts ++ [last]) base p → Linked 1 [last] links ts →
      Parse.complete.run { rest := p ++ ts ++ [last] } =
        (.ok (links.foldl Link.apply base), { rest := [last] })) ∧
    ∀ {base : Expr} {new : Token} {p ss as ts : List Token} {callee links : List Link}
      {arguments : List Expr}, new.kind = .keyword .new →
      ChainBase 2 (ss ++ as ++ ts ++ [last]) base p →
      Linked 2 (as ++ ts ++ [last]) callee ss → (∀ link ∈ callee, link.InCallee) →
      NewArguments 2 (ts ++ [last]) links arguments as → Linked 1 [last] links ts →
      Parse.complete.run { rest := new :: (p ++ ss ++ as ++ ts ++ [last]) } =
        (.ok (links.foldl Link.apply (.new (callee.foldl Link.apply base) arguments)),
          { rest := [last] }) := by
  have hbehind := behindBase_end hlast
  have hrank := bindingRank_end hlast
  refine ⟨fun {base p ts links} hbase hlinks => ?_,
    fun {base new p ss as ts callee links arguments} hnew hbase hcallee hplain ha hlinks => ?_⟩
  · have hstart := (hbase.head (ts ++ [last])).1
    rw [List.append_assoc]
    have hoperand := hbase.reads_operand hlinks (by decide) hbehind (by omega)
    have hunary := hoperand.unary hstart.toStartsOperand (by omega)
    exact (hunary.sequence_of_unary hstart.valid hrank).complete_run hlast
  · simp only [List.append_assoc] at hbase hcallee ⊢
    have hlater : (∀ link ∈ links.head?, link.IsOptional) →
        headKind (ts ++ [last]) = .punct .questionDot ∨ headKind (ts ++ [last]) = .eof := by
      intro hoptional
      cases hlinks with
      | nil => exact .inr hlast
      | cons h =>
        rw [List.append_assoc]
        exact .inl (h.questionDot (hoptional _ rfl) _)
    have hconstruction := hbase.reads_construction hnew hcallee hplain ha (by decide)
      (hlinks.behindBase hbehind) hlater
    have hoperand : Reads (maxDepth - 1) grammar.operand
        (new :: (p ++ (ss ++ (as ++ (ts ++ [last])))))
        (links.foldl Link.apply (.new (callee.foldl Link.apply base) arguments)) [last] := by
      refine .unfold (·.operand) (.kind_bind (.ite_pos hnew (.bind hconstruction ?_)))
      refine .unfold (fun r => r.suffixes true _) (hlinks.reads (by decide) (.inl rfl) ?_)
      exact .chain_stop (.suffix_stop (by omega) _ true _)
    have hstart : StartsOperand (headKind (new :: (p ++ (ss ++ (as ++ (ts ++ [last])))))) := by
      rw [headKind_cons, hnew]
      exact startsOperand_new
    have hunary := hoperand.unary hstart (by omega)
    exact (hunary.sequence_of_unary hstart.valid hrank).complete_run hlast

end

open Spelling (mark) in
/-- `x.new(y)` and `new (a)[b](c)?.d`. -/
theorem complete_links_new :
    let word (name : String) : Token := .bare (.identifier name)
    let last : Token := .bare .eof
    let call := [mark .dot, .bare (.keyword .new), mark .leftParen, word "y", mark .rightParen]
    let callLinks : List Link := [.named "new" false, .call [.identifier "y"] false]
    let group := [mark .leftParen, word "a", mark .rightParen]
    let property := [mark .leftBracket, word "b", mark .rightBracket]
    let arguments := [mark .leftParen, word "c", mark .rightParen]
    let later := [mark .questionDot, word "d"]
    ChainBase 1 (call ++ [last]) (.identifier "x") [word "x"] ∧ Linked 1 [last] callLinks call ∧
    Parse.complete.run { rest := [word "x"] ++ call ++ [last] } =
      (.ok (callLinks.foldl Link.apply (.identifier "x")), { rest := [last] }) ∧
    ChainBase 2 (property ++ arguments ++ later ++ [last]) (.identifier "a") group ∧
    Linked 2 (arguments ++ later ++ [last]) [.computed (.identifier "b") false] property ∧
    NewArguments 2 (later ++ [last]) [.named "d" true] [.identifier "c"] arguments ∧
    Linked 1 [last] [.named "d" true] later ∧
    Parse.complete.run
        { rest := .bare (.keyword .new) :: (group ++ property ++ arguments ++ later ++ [last]) } =
      (.ok (.member (.new (.member (.identifier "a") (.computed (.identifier "b")) false)
        [.identifier "c"]) (.fixed "d") true), { rest := [last] }) := by
  intro word last call callLinks group property arguments later
  have hlast : last.kind = .eof := rfl
  have hnested : ∀ name, Nested brackets (kinds [word name]) :=
    fun name => .plain (free_of_plain rfl) .nil
  have hparen : (mark .rightParen).kind.Separates := .of_mark rfl (by decide)
  have hbracket : (mark .rightBracket).kind.Separates := .of_mark rfl (by decide)
  have hy : FitsBefore [mark .rightParen, last] (Rule.spreadable grammar) 1 [word "y"]
      (.identifier "y") :=
    .of_nested (rules_write _).spreadable hparen hlast (by with_unfolding_all rfl) (hnested "y")
  have ha : FitsBefore (mark .rightParen :: (property ++ arguments ++ later ++ [last]))
      grammar.sequence 2 [word "a"] (.identifier "a") :=
    .of_nested (rules_write _).sequence hparen hlast (by with_unfolding_all rfl) (hnested "a")
  have hb : FitsBefore (mark .rightBracket :: (arguments ++ later ++ [last])) grammar.sequence 2
      [word "b"] (.identifier "b") :=
    .of_nested (rules_write _).sequence hbracket hlast (by with_unfolding_all rfl) (hnested "b")
  have hc : FitsBefore (mark .rightParen :: (later ++ [last])) (Rule.spreadable grammar) 2
      [word "c"] (.identifier "c") :=
    .of_nested (rules_write _).spreadable hparen hlast (by with_unfolding_all rfl) (hnested "c")
  have hbase : ChainBase 1 (call ++ [last]) (.identifier "x") [word "x"] := .name rfl (by decide)
  have hcall : Linked 1 [last] callLinks call := by
    have hgroup : ArgumentGroup 1 [last] [.identifier "y"]
        [mark .leftParen, word "y", mark .rightParen] :=
      ⟨_, [word "y"], _, rfl, rfl, rfl, .last hy⟩
    exact .cons (.named false rfl (.inr rfl))
      (.cons (@Link.Written.call _ _ [] _ _ false rfl hgroup) .nil)
  have hgroup : ChainBase 2 (property ++ arguments ++ later ++ [last]) (.identifier "a") group :=
    @ChainBase.group _ _ _ _ [word "a"] _ rfl rfl ha rfl
  have hproperty : Linked 2 (arguments ++ later ++ [last]) [.computed (.identifier "b") false]
      property := by
    have hlink : (Link.computed (.identifier "b") false).Written 2
        (arguments ++ later ++ [last]) property :=
      @Link.Written.computed _ _ [] [word "b"] _ _ _ false rfl rfl rfl hb
    exact @Linked.cons _ _ _ _ property [] hlink .nil
  have harguments : NewArguments 2 (later ++ [last]) [.named "d" true] [.identifier "c"]
      arguments := .given ⟨_, [word "c"], _, rfl, rfl, rfl, .last hc⟩
  have hlater : Linked 1 [last] [.named "d" true] later :=
    .cons (.named true rfl (.inl rfl)) .nil
  have hcallee : ∀ link ∈ [Link.computed (.identifier "b") false], link.InCallee := by
    intro link hlink
    rw [List.mem_singleton.1 hlink]
    rfl
  exact ⟨hbase, hcall, (complete_links hlast).1 hbase hcall, hgroup, hproperty, harguments, hlater,
    (complete_links hlast).2 rfl hgroup hproperty hcallee harguments hlater⟩

open Spelling (mark) in
/-- The parts of `x[(function(){((})][function(){)))=>}]` are read alone, but not where they
stand: the search for `=>` behind the parenthesis of the first one finds the `=>` in the body of
the second one. -/
theorem complete_links_misled :
    let opened : List Token := [.punct .leftParen, .keyword .function, .punct .leftParen,
      .punct .rightParen, .punct .leftBrace, .punct .leftParen, .punct .leftParen,
      .punct .rightBrace, .punct .rightParen].map Token.bare
    let closed : List Token := [.keyword .function, .punct .leftParen, .punct .rightParen,
      .punct .leftBrace, .punct .rightParen, .punct .rightParen, .punct .rightParen,
      .punct .arrow, .punct .rightBrace].map Token.bare
    let tokens := .bare (.identifier "x") ::
      (mark .leftBracket :: (opened ++ [mark .rightBracket]) ++
        mark .leftBracket :: (closed ++ [mark .rightBracket])) ++ [.bare .eof]
    let property : Expr := .function .expression false none [] .block
    kinds (tokenize "x[(function()\x7b((\x7d)][function()\x7b)))=>\x7d]") = kinds tokens ∧
    grammar.sequence ⟨opened ++ [.bare .eof], 1⟩ = .ok property ⟨[.bare .eof], 1⟩ ∧
    grammar.sequence ⟨closed ++ [.bare .eof], 1⟩ = .ok property ⟨[.bare .eof], 1⟩ ∧
    (Parse.complete.run { rest := tokens }).1 = .error ⟨1, 1, .parameter (.keyword .function)⟩ := by
  intro opened closed tokens property
  have hkinds : kinds (tokenize "x[(function()\x7b((\x7d)][function()\x7b)))=>\x7d]") =
      kinds tokens := by decide +kernel
  have hopened : grammar.sequence ⟨opened ++ [.bare .eof], 1⟩ = .ok property ⟨[.bare .eof], 1⟩ := by
    with_unfolding_all rfl
  have hclosed : grammar.sequence ⟨closed ++ [.bare .eof], 1⟩ = .ok property ⟨[.bare .eof], 1⟩ := by
    with_unfolding_all rfl
  have hrun : (Parse.complete.run { rest := tokens }).1 =
      .error ⟨1, 1, .parameter (.keyword .function)⟩ := by
    with_unfolding_all rfl
  exact ⟨hkinds, hopened, hclosed, hrun⟩

end TemplateVars
