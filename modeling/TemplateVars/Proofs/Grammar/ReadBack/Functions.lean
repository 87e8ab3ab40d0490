/-
Patterns, functions and object literals are read back.

* `Pattern.RecoversTarget`, `Pattern.RecoversBinding`, `Pattern.RecoversParameter`
  — whether a pattern is read where each rule for patterns expects it;
* `readBack_arrow`, `readBack_function` — functions whose parameters are read are
  read back;
* `readBack_object` — so are object literals.

Design notes: a group is taken for parameters exactly if `=>` follows it, for
which its brackets have to be balanced.  The spelling of a static key is a string
and starts no modifier.
-/
import TemplateVars.Proofs.Grammar.ReadBack.Members

namespace TemplateVars

open Grammar (grammar)
open Spelling

/-! ### Keys -/

/-- Whether the name of a property is read, as no name that may stand alone. -/
def Key.Recovers (k : Nat) (key : Key) : Prop :=
  ∀ after, Reads k grammar.propertyKey (key.tokens ++ after) (key, none) after

theorem key_head (key : Key) (after : List Token) {m : Punctuator} (hm : m ≠ .leftBracket) :
    headKind (key.tokens ++ after) ≠ .punct m := by
  cases key with
  | fixed name => exact nofun
  | computed e =>
    intro heq
    cases heq
    exact hm rfl

section

variable {k : Nat}

theorem recovers_key {key : Key} (h : ∀ e, key = .computed e → e.Recovers k) :
    key.Recovers (k + 1) := by
  intro after
  cases key with
  | fixed name => exact .unfold (·.propertyKey) (.kind_bind (.advance_bind rfl (.pure _ _ after)))
  | computed e =>
    simp only [Key.tokens, between, List.cons_append, List.append_assoc, List.nil_append]
    refine .unfold (·.propertyKey) (.kind_bind (.advance_bind rfl ?_))
    exact .bind ((h e rfl).assignment Nat.zero_lt_two) (.expect_bind rfl (.pure _ _ after))

end

/-! ### Patterns -/

/-- Whether a token may start the target of a binding. -/
def StartsTarget (k : TokenKind) : Prop :=
  ∀ m, k = .punct m → m = .leftBracket ∨ m = .leftBrace

theorem StartsTarget.ne {k : TokenKind} (h : StartsTarget k) {m : Punctuator}
    (hm : m ≠ .leftBracket ∧ m ≠ .leftBrace) : k ≠ .punct m := by
  intro heq
  rcases h m heq with h | h
  · exact hm.1 h
  · exact hm.2 h

/-- Whether a pattern is read as the target of a binding. -/
structure Pattern.RecoversTarget (k : Nat) (p : Pattern) : Prop where
  starts (after : List Token) : StartsTarget (headKind (p.tokens ++ after))
  reads (after : List Token) : Reads k grammar.bindingTarget (p.tokens ++ after) p after

/-- Whether a pattern is read as a binding, where the next one or the end of the
list follows. -/
structure Pattern.RecoversBinding (k : Nat) (p : Pattern) : Prop where
  starts (after : List Token) : StartsTarget (headKind (p.tokens ++ after))
  reads {after : List Token} (h : bindingRank (headKind after) < 2) :
    Reads k grammar.bindingElement (p.tokens ++ after) p after

/-- Whether a pattern is read as a parameter: a rest behind its dots, others as
bindings. -/
structure Pattern.RecoversParameter (k : Nat) (p : Pattern) : Prop where
  rest (target : Pattern) (h : p = .rest target) : target.RecoversTarget k
  binding (h : p.isRest = false) : p.RecoversBinding k

/-- Whether a property of an object pattern is read. -/
def PatternProperty.Recovers (k : Nat) (p : PatternProperty) : Prop :=
  ∀ after, bindingRank (headKind after) < 2 →
    Reads k (Rule.patternProperty grammar) (p.tokens ++ after) p after

section

variable {k : Nat} {e : Expr} {p : Pattern}

theorem recoversTarget_name (k : Nat) (name : String) :
    (Pattern.identifier name).RecoversTarget k where
  starts _ := nofun
  reads after :=
    .unfold (·.bindingTarget) (.kind_bind (.advance_bind rfl (.pure k _ after)))

theorem Pattern.RecoversTarget.binding (h : p.RecoversTarget k) : p.RecoversBinding k where
  starts := h.starts
  reads {after} hafter := by
    refine .unfold (·.bindingElement) (.bind (h.reads after) (.kind_bind (.ite_neg ?_ ?_)))
    · intro heq
      rw [heq] at hafter
      exact absurd hafter (Nat.lt_irrefl 2)
    · exact .pure k p after

theorem recoversBinding_default (hp : p.RecoversTarget (k + 1)) (he : e.Recovers k) :
    (Pattern.withDefault p e).RecoversBinding (k + 1) where
  starts after := by
    rw [Pattern.tokens, List.append_assoc]
    exact hp.starts _
  reads {after} hafter := by
    rw [Pattern.tokens, List.append_assoc, List.cons_append]
    refine .unfold (·.bindingElement) (.bind (hp.reads _) (.kind_bind (.ite_pos rfl ?_)))
    exact .advance_bind rfl (.bind (he.assignment hafter) (.pure _ _ after))

theorem Pattern.RecoversBinding.parameter (h : p.RecoversBinding k) (hrest : p.isRest = false) :
    p.RecoversParameter k where
  rest target heq := by
    subst heq
    exact nomatch hrest
  binding _ := h

theorem Pattern.RecoversTarget.rest (h : p.RecoversTarget k) :
    (Pattern.rest p).RecoversParameter k where
  rest target heq := by
    cases heq
    exact h
  binding hrest := nomatch hrest

theorem Pattern.RecoversBinding.tokens_pos (h : p.RecoversBinding k) : 0 < p.tokens.length := by
  refine Nat.pos_of_ne_zero fun hlen => ?_
  -- if there were none, a bracket that is no target could come first
  have hstart := h.starts [mark .rightParen]
  rw [List.length_eq_zero_iff.1 hlen] at hstart
  rcases hstart .rightParen rfl with h | h <;> exact nomatch h

theorem recoversTarget_array {elements : List (Option Pattern)}
    (h : ∀ p, some p ∈ elements → p.RecoversParameter k) (hlast : ElementRestLast elements) :
    (Pattern.array elements).RecoversTarget (k + 1) where
  starts _ := by
    intro m heq
    cases heq
    exact .inl rfl
  reads after := by
    simp only [Pattern.tokens, between, tokensOfPatternElements_eq, List.cons_append,
      List.append_assoc, List.nil_append]
    refine .unfold (·.bindingTarget) (.kind_bind (.nested (by rintro _ ⟨⟩) ?_))
    refine .unfold (·.arrayPattern) (.advance_bind rfl
      (.bind (.collect_elements ?_ ?_ ?_ ?_ after) (.pure k _ after)))
    · intro rest
      exact .accept_no (by rintro ⟨⟩) (.accept_yes rfl (.pure k _ rest))
    · intro p hp rest
      -- an element with others behind it is no rest
      have hbinding := (h p (List.dropLast_subset _ hp)).binding (hlast p hp)
      have hstart := hbinding.starts (mark .comma :: rest)
      refine .accept_no (hstart.ne (by decide)) (.accept_no (hstart.ne (by decide)) ?_)
      refine .accept_no (hstart.ne (by decide)) ?_
      refine .bind (hbinding.reads (Nat.lt_succ_self 1)) (.check_no (by rintro ⟨⟩) ?_)
      exact .expect_bind rfl (.pure k _ rest)
    · intro p hp rest
      cases hrest : p.isRest with
      | true =>
        obtain ⟨target, rfl⟩ : ∃ target, p = .rest target := by
          cases p <;> first | exact ⟨_, rfl⟩ | cases hrest
        have htarget := (h _ hp).rest target rfl
        refine .collect_last (.accept_no (by rintro ⟨⟩) (.accept_no (by rintro ⟨⟩) ?_))
        refine .accept_yes rfl ?_
        exact .bind (htarget.reads _) (.expect_bind rfl (.pure k _ rest))
      | false =>
        have hbinding := (h p hp).binding hrest
        refine @Reads.collect_more _ _ _ (mark .rightBracket :: rest) _ _ _ _ ?_ ?_ ?_
        · have hstart := hbinding.starts (mark .rightBracket :: rest)
          refine .accept_no (hstart.ne (by decide)) (.accept_no (hstart.ne (by decide)) ?_)
          refine .accept_no (hstart.ne (by decide)) ?_
          exact .bind (hbinding.reads Nat.zero_lt_two) (.check_yes rfl (.pure k _ _))
        · have hpos := hbinding.tokens_pos
          simp only [List.length_append, List.length_cons]
          omega
        · exact .collect_stop (.accept_yes rfl (.pure k _ rest))
    · intro rest
      exact .accept_yes rfl (.pure k _ rest)

theorem recovers_patternValue {key : Key} (hk : key.Recovers (k + 1))
    (hp : p.RecoversBinding (k + 1)) : (PatternProperty.keyed key p).Recovers (k + 1) := by
  intro after hafter
  rw [PatternProperty.tokens, List.append_assoc, List.cons_append]
  refine .accept_no (key_head key _ nofun) (.bind (hk _) (.accept_yes rfl ?_))
  exact .bind (hp.reads hafter) (.pure _ _ after)

theorem recovers_patternRest (hp : p.RecoversTarget k) : (PatternProperty.rest p).Recovers k :=
  fun after _ => .accept_yes rfl (.bind (hp.reads after) (.pure k _ after))

theorem patternProperty_head (p : PatternProperty) (after : List Token) :
    headKind (p.tokens ++ after) ≠ .punct .rightBrace := by
  cases p with
  | keyed key value =>
    rw [PatternProperty.tokens, List.append_assoc]
    exact key_head key _ nofun
  | rest target => exact nofun

theorem recoversTarget_object {properties : List PatternProperty}
    (h : ∀ p ∈ properties, p.Recovers k) :
    (Pattern.object properties).RecoversTarget (k + 1) where
  starts _ := by
    intro m heq
    cases heq
    exact .inr rfl
  reads after := by
    simp only [Pattern.tokens, between, tokensOfPatternProperties_eq, List.cons_append,
      List.append_assoc, List.nil_append]
    refine .unfold (·.bindingTarget) (.kind_bind (.nested (by rintro _ ⟨⟩) ?_))
    refine .unfold (·.objectPattern) (.advance_bind rfl (.bind (.collect_listed ?_ ?_ ?_ after) ?_))
    · intro p hp rest
      refine .check_no (patternProperty_head p _) ?_
      refine .bind (h p (List.dropLast_subset _ hp) _ (Nat.lt_succ_self 1)) ?_
      exact .accept_yes rfl (.pure k _ rest)
    · intro p hp rest
      refine .check_no (patternProperty_head p _) ?_
      exact .bind (h p hp _ Nat.zero_lt_two) (.accept_no (by rintro ⟨⟩) (.pure k _ _))
    · intro rest
      exact .check_yes rfl (.pure k _ _)
    · exact .expect_bind rfl (.pure k _ after)

/-! ### Parameters and bodies -/

theorem reads_parameters {params : List Pattern} (h : ∀ p ∈ params, p.RecoversParameter k)
    (hlast : RestLast params) (after : List Token) :
    Reads k grammar.parameters (group (listed (tokensOfParams params)) ++ after) params after := by
  rw [tokensOfParams_eq, group_append]
  refine .unfold (·.parameters) (.expect_bind rfl (.bind (.collect_listed ?_ ?_ ?_ after) ?_))
  · intro p hp rest
    have hbinding := (h p (List.dropLast_subset _ hp)).binding (hlast p hp)
    have hstart := hbinding.starts (mark .comma :: rest)
    refine .check_no (hstart.ne ⟨nofun, nofun⟩) ?_
    refine .accept_no (hstart.ne ⟨nofun, nofun⟩) ?_
    refine .bind (hbinding.reads (Nat.lt_succ_self 1)) (.accept_yes rfl ?_)
    exact .pure k _ rest
  · intro p hp rest
    cases hrest : p.isRest with
    | true =>
      obtain ⟨target, rfl⟩ : ∃ target, p = .rest target := by
        cases p <;> first | exact ⟨_, rfl⟩ | exact nomatch hrest
      have htarget := (h _ hp).rest target rfl
      refine .check_no nofun (.accept_yes rfl ?_)
      exact .bind (htarget.reads _) (.pure k _ _)
    | false =>
      have hbinding := (h p hp).binding hrest
      have hstart := hbinding.starts (mark .rightParen :: rest)
      refine .check_no (hstart.ne ⟨nofun, nofun⟩) ?_
      refine .accept_no (hstart.ne ⟨nofun, nofun⟩) ?_
      exact .bind (hbinding.reads Nat.zero_lt_two) (.accept_no nofun (.pure k _ _))
  · intro rest
    exact .check_yes rfl (.pure k _ _)
  · exact .expect_bind rfl (.pure k _ after)

theorem reads_block (k : Nat) (after : List Token) :
    Reads k Rule.skipBlock (block ++ after) () after :=
  fun _ => .inl rfl

/-! ### Functions -/

/-- Whether the parameters of a function are read, in their order. -/
structure RecoversParams (k : Nat) (params : List Pattern) : Prop where
  balanced : Balanced (listed (tokensOfParams params))
  each : ∀ p ∈ params, p.RecoversParameter k
  last : RestLast params

variable {params : List Pattern}

/-- Whether a body is read behind the arrow. -/
def Body.Recovers (k : Nat) (body : Body) : Prop :=
  ∀ isAsync params after, Closing after →
    Reads k (grammar.arrowBody isAsync params) (body.tokens ++ after)
      (.function .arrow isAsync none params body) after

theorem recovers_body (h : e.Recovers k) : (Body.expression e).Recovers (k + 1) := by
  intro isAsync params after hafter
  have hrank := hafter.bindingRank
  refine .unfold (fun r => r.arrowBody isAsync params) (.check_no nofun ?_)
  exact .bind (h.assignment (by omega)) (.pure _ _ after)

theorem recovers_block (k : Nat) : Body.block.Recovers k := by
  intro isAsync params after _
  refine .unfold (fun r => r.arrowBody isAsync params) (.check_yes rfl ?_)
  exact .bind (reads_block k after) (.pure k _ after)

theorem reads_arrow (hps : RecoversParams k params) {body : Body} (hb : body.Recovers k)
    (isAsync : Bool) {after : List Token} (hafter : Closing after) :
    Reads k (grammar.parenthesized isAsync)
      (group (listed (tokensOfParams params)) ++ mark .arrow :: (body.tokens ++ after))
      (.function .arrow isAsync none params body) after := by
  refine .unfold (fun r => r.parenthesized isAsync) (.get_bind fun d => .ite_pos ?_ ?_)
  · rw [arrowFollows_group hps.balanced]
    rfl
  · refine .bind (reads_parameters hps.each hps.last _) (.expect_bind rfl ?_)
    exact hb isAsync params after hafter

theorem reads_function (hps : RecoversParams k params) (isAsync : Bool) (name : Option String)
    (after : List Token) :
    Reads k (grammar.functionExpression isAsync)
      (.bare (.keyword .function) ::
        (functionName name ++ (group (listed (tokensOfParams params)) ++ (block ++ after))))
      (.function .expression isAsync name params .block) after := by
  have hparams := reads_parameters hps.each hps.last (block ++ after)
  refine .unfold (fun r => r.functionExpression isAsync) (.advance_bind rfl ?_)
  cases name with
  | none =>
    refine .accept_no nofun (.bind (.kind_bind (.pure k none _)) (.bind hparams ?_))
    exact .bind (reads_block k after) (.pure k _ after)
  | some name =>
    refine .accept_no nofun (.bind (.kind_bind (.advance_bind rfl (.pure k _ _))) ?_)
    exact .bind hparams (.bind (reads_block k after) (.pure k _ after))

/-- Where a function follows the word `async` on its line, that is what is
read. -/
theorem reads_async {f : Expr} {ts after : List Token}
    (h : Reads k grammar.asyncFunction? (.bare (.identifier "async") :: ts) (some f) after) :
    Reads k grammar.primary (.bare (.identifier "async") :: ts) f after :=
  .unfold (·.primary) (.kind_bind (.ite_pos rfl (.bind h (.pure k f after))))

theorem readBack_arrow (hps : RecoversParams k params) {body : Body} (hb : body.Recovers k)
    (isAsync : Bool) : (Expr.function .arrow isAsync none params body).ReadBack (k + 1) := by
  refine readBack_of_primary (fun after => ?_) fun after hafter => ?_
  · cases isAsync <;> exact ⟨⟨rfl, rfl, by rintro _ ⟨⟩⟩, by rintro ⟨⟩⟩
  · -- behind `async` the same group and arrow are read by the rule for it
    have harrow := reads_arrow hps hb isAsync hafter
    simp only [Expr.tokens, List.append_assoc, List.cons_append]
    cases isAsync with
    | false => exact .unfold (·.primary) (.kind_bind harrow)
    | true =>
      refine reads_async (.unfold (·.asyncFunction?) (.ahead_bind (.ite_neg (by rintro ⟨⟩) ?_)))
      refine .get_bind fun d => .ite_pos ?_ (.advance_bind rfl (.bind harrow (.pure k _ after)))
      show arrowFollows (group (listed (tokensOfParams params)) ++ _) = true
      rw [arrowFollows_group hps.balanced]
      rfl

theorem readBack_function (hps : RecoversParams k params) (isAsync : Bool)
    (name : Option String) :
    (Expr.function .expression isAsync name params .block).ReadBack (k + 1) := by
  refine readBack_of_primary (fun after => ?_) fun after _ => ?_
  · cases isAsync <;> exact ⟨⟨rfl, rfl, by rintro _ ⟨⟩⟩, by rintro ⟨⟩⟩
  · have hfunction := reads_function hps isAsync name after
    simp only [Expr.tokens, List.append_assoc, List.cons_append]
    cases isAsync with
    | false => exact .unfold (·.primary) (.kind_bind hfunction)
    | true =>
      refine reads_async (.unfold (·.asyncFunction?) (.ahead_bind (.ite_neg (by rintro ⟨⟩) ?_)))
      exact .advance_bind rfl (.bind hfunction (.pure k _ after))

/-! ### Object literals -/

/-- Whether the next member of an object literal or its end follows. -/
def ItemEnd : List Token → Prop
  | [] => False
  | t :: _ => t.kind = .punct .comma ∨ t.kind = .punct .rightBrace

theorem ItemEnd.bindingRank {after : List Token} (h : ItemEnd after) :
    bindingRank (headKind after) < 2 := by
  cases after with
  | nil => exact h.elim
  | cons t rest =>
    rw [headKind_cons]
    rcases h with h | h
    · rw [h]
      exact Nat.lt_succ_self 1
    · rw [h]
      exact Nat.zero_lt_two

/-- Whether a member of an object literal is read. -/
structure Property.Recovers (k : Nat) (p : Property) : Prop where
  starts (after : List Token) : headKind (p.tokens ++ after) ≠ .punct .rightBrace
  reads {after : List Token} (h : ItemEnd after) :
    Reads k grammar.objectMember (p.tokens ++ after) p after

variable {key : Key}

theorem reads_noModifier (k : Nat) (key : Key) (after : List Token) :
    Reads k Rule.modifier (key.tokens ++ after) (.init, false) (key.tokens ++ after) := by
  cases key with
  | fixed name => exact .kind_bind (.pure k _ _)
  | computed e => exact .kind_bind (.pure k _ _)

theorem recovers_value (hk : key.Recovers (k + 1)) (he : e.Recovers k) :
    (Property.keyed key e .init false).Recovers (k + 1) where
  starts after := by
    show headKind (key.tokens ++ mark .colon :: group e.tokens ++ after) ≠ _
    rw [List.append_assoc]
    exact key_head key _ nofun
  reads {after} hafter := by
    show Reads _ _ (key.tokens ++ mark .colon :: group e.tokens ++ after) _ _
    rw [List.append_assoc, List.cons_append]
    refine .unfold (·.objectMember) (.accept_no (key_head key _ nofun) ?_)
    refine .bind (reads_noModifier _ key _) (.accept_no (key_head key _ nofun) ?_)
    refine .bind (hk _) (.check_no nofun (.ite_neg (by decide) (.accept_yes rfl ?_)))
    exact .bind (he.assignment hafter.bindingRank) (.pure _ _ after)

/-- A name that stands for a variable of its own is read, also if it is the name
of a modifier. -/
theorem reads_shorthand {name : String} {t : Token} {rest after : List Token}
    (hmethod : t.kind.startsMethodName = false) (hparen : t.kind ≠ .punct .leftParen)
    (hcolon : t.kind ≠ .punct .colon)
    (h : Reads k (Rule.shorthandValue grammar name) (t :: rest) e after) :
    Reads k grammar.objectMember (.bare (.identifier name) :: t :: rest)
      (.keyed (.fixed name) e .init true) after := by
  -- `get`, `set` and `async` are modifiers only in front of another name
  have hmodifier : Reads k Rule.modifier (.bare (.identifier name) :: t :: rest) (.init, false)
      (.bare (.identifier name) :: t :: rest) := by
    refine .kind_bind ?_
    simp only [headKind_cons, Token.bare]
    cases Rule.modifierKind? name with
    | none => exact .pure k _ _
    | some kind => exact .ahead_bind (.ite_neg (Bool.eq_false_iff.1 hmethod) (.pure k _ _))
  have hkey : Reads k grammar.propertyKey (.bare (.identifier name) :: t :: rest)
      (.fixed name, some name) (t :: rest) :=
    .unfold (·.propertyKey) (.kind_bind (.advance_bind rfl (.pure k _ _)))
  refine .unfold (·.objectMember) (.accept_no (by rintro ⟨⟩) (.bind hmodifier ?_))
  refine .accept_no (by rintro ⟨⟩) ?_
  refine .bind hkey (.check_no hparen (.ite_neg (by decide) (.accept_no hcolon ?_)))
  exact .bind h (.pure k _ after)

theorem recovers_shorthand (k : Nat) (name : String) :
    (Property.keyed (.fixed name) (.identifier name) .init true).Recovers k where
  starts _ := nofun
  reads {after} hafter := by
    cases after with
    | nil => exact hafter.elim
    | cons t rest =>
      have hvalue : t.kind ≠ .assign .plain →
          Reads k (Rule.shorthandValue grammar name) (t :: rest) (.identifier name) (t :: rest) :=
        fun hne => .kind_bind (.ite_neg hne (.pure k _ _))
      rcases hafter with h | h
      · refine reads_shorthand ?_ ?_ ?_ (hvalue ?_) <;> rw [h] <;> first | rfl | exact nofun
      · refine reads_shorthand ?_ ?_ ?_ (hvalue ?_) <;> rw [h] <;> first | rfl | exact nofun

theorem recovers_shorthandDefault (he : e.Recovers k) (name : String) :
    (Property.keyed (.fixed name) (.assign .plain (.identifier name) e) .init true).Recovers
      (k + 1) where
  starts _ := nofun
  reads {after} hafter := by
    refine reads_shorthand rfl nofun nofun (.kind_bind (.ite_pos rfl (.advance_bind rfl ?_)))
    exact .bind (he.assignment hafter.bindingRank) (.pure _ _ after)

theorem recovers_spreadProperty (he : e.Recovers k) : (Property.spread e).Recovers (k + 1) where
  starts _ := nofun
  reads {after} hafter := by
    refine .unfold (·.objectMember) (.accept_yes rfl ?_)
    exact .bind (he.assignment hafter.bindingRank) (.pure _ _ after)

/-- A modifier in front of a name is read as such; what it says of a method is
what it was written for. -/
theorem reads_modifier {kind : PropertyKind} {isAsync : Bool} (hkind : kind ≠ .init)
    (hasync : isAsync = true → kind = .method) (k : Nat) (key : Key) (after : List Token) :
    ∃ kind' : PropertyKind, Reads k Rule.modifier (modifier kind isAsync ++ (key.tokens ++ after))
      (kind', isAsync) (key.tokens ++ after) ∧
      (if kind' = .init then .method else kind') = kind := by
  have hname : (headKind (key.tokens ++ after)).startsMethodName = true := by
    cases key <;> rfl
  -- one argument for the three words that are modifiers
  have word : ∀ word kind', Rule.modifierKind? word = some kind' →
      Reads k Rule.modifier (.bare (.identifier word) :: (key.tokens ++ after))
        (kind', decide (kind' = .method)) (key.tokens ++ after) := by
    intro word kind' hword
    refine .kind_bind ?_
    simp only [headKind_cons, Token.bare, hword]
    refine .ahead_bind (.ite_pos ?_ (.advance_bind rfl (.pure k _ _)))
    cases key <;> exact hname
  have hsync : kind ≠ .method → isAsync = false := by
    intro hne
    cases isAsync with
    | false => rfl
    | true => exact absurd (hasync rfl) hne
  cases kind with
  | init => exact absurd rfl hkind
  | get =>
    obtain rfl := hsync (by rintro ⟨⟩)
    exact ⟨.get, word "get" .get (by simp [Rule.modifierKind?]), rfl⟩
  | set =>
    obtain rfl := hsync (by rintro ⟨⟩)
    exact ⟨.set, word "set" .set (by simp [Rule.modifierKind?]), rfl⟩
  | method =>
    cases isAsync with
    | false => exact ⟨.init, reads_noModifier k key after, rfl⟩
    | true => exact ⟨.method, word "async" .method (by simp [Rule.modifierKind?]), rfl⟩

theorem recovers_method {kind : PropertyKind} {isAsync : Bool} (hkind : kind ≠ .init)
    (hasync : isAsync = true → kind = .method) (hk : key.Recovers k)
    (hps : RecoversParams k params) :
    (Property.keyed key (.function .expression isAsync (Rule.methodName? key) params .block) kind
      false).Recovers k := by
  have htokens : (Property.keyed key
      (.function .expression isAsync (Rule.methodName? key) params .block) kind false).tokens =
      modifier kind isAsync ++ key.tokens ++ (group (listed (tokensOfParams params)) ++ block) := by
    simp [Property.tokens, Expr.methodTokens, Expr.isAsync, hkind]
  -- a method starts with its modifier if it has one, and otherwise with its key
  have hhead : ∀ after, ∀ m, m ≠ .leftBracket →
      headKind (modifier kind isAsync ++ (key.tokens ++ after)) ≠ .punct m := by
    intro after m hm
    cases kind with
    | get => rintro ⟨⟩
    | set => rintro ⟨⟩
    | init => exact absurd rfl hkind
    | method =>
      cases isAsync with
      | false => exact key_head key _ hm
      | true => rintro ⟨⟩
  constructor
  · intro after
    rw [htokens, List.append_assoc, List.append_assoc]
    exact hhead _ _ (by rintro ⟨⟩)
  · intro after _
    obtain ⟨kind', hmodifier, hkind'⟩ := reads_modifier hkind hasync k key
      (group (listed (tokensOfParams params)) ++ (block ++ after))
    rw [htokens, List.append_assoc, List.append_assoc, List.append_assoc]
    refine .unfold (·.objectMember) (.accept_no (hhead _ _ (by rintro ⟨⟩)) (.bind hmodifier ?_))
    refine .accept_no (key_head key _ (by rintro ⟨⟩)) (.bind (hk _) (.check_yes rfl ?_))
    refine .bind (reads_parameters hps.each hps.last _) (.bind (reads_block k after) ?_)
    show Reads k (Pure.pure (Property.keyed key _ (if kind' = .init then .method else kind') false))
      _ _ _
    rw [hkind']
    exact .pure k _ after

theorem readBack_object {properties : List Property} (h : ∀ p ∈ properties, p.Recovers k) :
    (Expr.object properties).ReadBack (k + 1) := by
  refine readBack_of_primary (fun _ => ?_) fun after _ => ?_
  · exact ⟨⟨rfl, rfl, by rintro _ ⟨⟩⟩, by rintro ⟨⟩⟩
  simp only [Expr.tokens, between, tokensOfProperties_eq, List.cons_append, List.append_assoc,
    List.nil_append]
  refine .unfold (·.primary) (.kind_bind ?_)
  refine .unfold (·.objectLiteral) (.advance_bind rfl (.bind (.collect_listed ?_ ?_ ?_ after) ?_))
  · intro p hp rest
    refine .check_no ((h p (List.dropLast_subset _ hp)).starts _) ?_
    refine .bind ((h p (List.dropLast_subset _ hp)).reads (.inl rfl)) ?_
    exact .accept_yes rfl (.pure k _ rest)
  · intro p hp rest
    refine .check_no ((h p hp).starts _) ?_
    exact .bind ((h p hp).reads (.inr rfl)) (.accept_no (by rintro ⟨⟩) (.pure k _ _))
  · intro rest
    exact .check_yes rfl (.pure k _ _)
  · exact .expect_bind rfl (.pure k _ after)

end

end TemplateVars
