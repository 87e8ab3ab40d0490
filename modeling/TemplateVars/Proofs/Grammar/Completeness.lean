/-
A tree that was read is read again from its fully parenthesised spelling.

* `Formed.recovers` — three levels for each expression and pattern on the way
  down suffice to read a phrase of the grammar from its spelling;
* `complete_tokens` — so a tree that was read is read from its spelling or nests
  too deeply, and the former if it is no higher than `maxDepth / 3`.

Design notes: the induction is on how the grammar builds a phrase.  The number of
levels grows by at most three at each expression or pattern: one for the
expression, one for an operator or bracket in it, and one for the group of an
operand.
-/
import TemplateVars.Proofs.Grammar.ReadBack.Functions

namespace TemplateVars

open Grammar (grammar)
open Spelling

/-- Whether a phrase is read by its rule from its spelling, with three levels for
each expression and pattern on the way down. -/
def Phrase.Recovers : Phrase → Prop
  | .expr e => e.ReadBack (3 * e.height)
  | .argument a => a.RecoversArgument (3 * a.height + 1)
  | .key k => ∀ e, k = .computed e → e.Recovers (3 * k.height)
  | .property p => p.Recovers (3 * p.height + 1)
  | .target p => p.RecoversTarget (3 * p.height)
  | .binding p => p.RecoversBinding (3 * p.height)
  | .parameter p => p.RecoversParameter (3 * p.height)
  | .patternProperty p => p.Recovers (3 * p.height + 1)

section

variable {k k' : Nat}

theorem Expr.ReadBack.mono {e : Expr} (h : e.ReadBack k) (hk : k ≤ k') : e.ReadBack k' :=
  fun after hafter => (h after hafter).mono hk

theorem Expr.RecoversArgument.mono {a : Expr} (h : a.RecoversArgument k) (hk : k ≤ k') :
    a.RecoversArgument k' :=
  fun after hafter => (h after hafter).mono hk

theorem Property.Recovers.mono {p : Property} (h : p.Recovers k) (hk : k ≤ k') : p.Recovers k' :=
  ⟨h.starts, fun hafter => (h.reads hafter).mono hk⟩

theorem Pattern.RecoversTarget.mono {p : Pattern} (h : p.RecoversTarget k) (hk : k ≤ k') :
    p.RecoversTarget k' :=
  ⟨h.starts, fun after => (h.reads after).mono hk⟩

theorem Pattern.RecoversBinding.mono {p : Pattern} (h : p.RecoversBinding k) (hk : k ≤ k') :
    p.RecoversBinding k' :=
  ⟨h.starts, fun hafter => (h.reads hafter).mono hk⟩

theorem Pattern.RecoversParameter.mono {p : Pattern} (h : p.RecoversParameter k) (hk : k ≤ k') :
    p.RecoversParameter k' :=
  ⟨fun target heq => (h.rest target heq).mono hk, fun hrest => (h.binding hrest).mono hk⟩

theorem PatternProperty.Recovers.mono {p : PatternProperty} (h : p.Recovers k) (hk : k ≤ k') :
    p.Recovers k' :=
  fun after hafter => (h after hafter).mono hk

end

section

variable {P : String → Prop}

/-- An expression of the grammar that is read back is read in a group. -/
theorem Formed.recovers_of {e : Expr} {k : Nat} (h : Formed P (.expr e))
    (hread : Phrase.Recovers (.expr e)) (hk : 3 * e.height ≤ k) : e.Recovers k :=
  ⟨h.balanced, fun after hafter => (hread after hafter).mono hk⟩

theorem recoversParams_of {params : List Pattern} {k : Nat}
    (hps : ∀ p ∈ params, Formed P (.parameter p)) (hlast : RestLast params)
    (hread : ∀ p ∈ params, Phrase.Recovers (.parameter p))
    (hk : 3 * heightOfPatterns params ≤ k) : RecoversParams k params where
  balanced := by
    rw [tokensOfParams_eq]
    exact .listed_items fun p hp => (hps p hp).balanced
  each p hp := by
    have hle := height_le_patterns hp
    exact (hread p hp).mono (by omega)
  last := hlast

theorem recoversArguments_of {arguments : List Expr} {k : Nat}
    (hread : ∀ a ∈ arguments, Phrase.Recovers (.argument a))
    (hk : 3 * heightOfExprs arguments + 1 ≤ k) : ∀ a ∈ arguments, a.RecoversArgument k := by
  intro a ha
  have hle := height_le_exprs ha
  exact (hread a ha).mono (by omega)

theorem recoversExprs_of {es : List Expr} {k : Nat} (hes : ∀ e ∈ es, Formed P (.expr e))
    (hread : ∀ e ∈ es, Phrase.Recovers (.expr e)) (hk : 3 * heightOfExprs es ≤ k) :
    ∀ e ∈ es, e.Recovers k := by
  intro e he
  have hle := height_le_exprs he
  exact (hes e he).recovers_of (hread e he) (by omega)

/-- A phrase of the grammar is read from its spelling. -/
theorem Formed.recovers {phrase : Phrase} (h : Formed P phrase) : phrase.Recovers := by
  -- on how the phrase is formed: each part is given the levels of the highest one,
  -- and the form itself needs at most three more
  induction h with
  | identifier _ => exact readBack_identifier 2 _
  | literal value => exact readBack_literal 2 value
  | @binary op left right hl hr ihl ihr =>
    have hleft : left.Recovers (3 * max left.height right.height) :=
      hl.recovers_of ihl (by omega)
    have hright : right.Recovers (3 * max left.height right.height) :=
      hr.recovers_of ihr (by omega)
    exact (readBack_binary op hleft hright).mono (by rw [Expr.height]; omega)
  | @logical op left right hl hr ihl ihr =>
    have hleft : left.Recovers (3 * max left.height right.height) :=
      hl.recovers_of ihl (by omega)
    have hright : right.Recovers (3 * max left.height right.height) :=
      hr.recovers_of ihr (by omega)
    exact (readBack_logical op hleft hright).mono (by rw [Expr.height]; omega)
  | @unary op argument h ih =>
    have hargument : argument.Recovers (3 * argument.height) := h.recovers_of ih (by omega)
    exact (readBack_unary op hargument).mono (by rw [Expr.height]; omega)
  | @conditional test consequent alternate ht hc ha iht ihc iha =>
    let k := 3 * max test.height (max consequent.height alternate.height)
    have htest : test.Recovers k := ht.recovers_of iht (by omega)
    have hconsequent : consequent.Recovers k := hc.recovers_of ihc (by omega)
    have halternate : alternate.Recovers k := ha.recovers_of iha (by omega)
    refine (readBack_conditional htest hconsequent halternate).mono ?_
    rw [Expr.height]
    omega
  | @member base property hb hp optional ihb ihp =>
    let k := 3 * max base.height property.height
    have hbase : base.Recovers (k + 1) := hb.recovers_of ihb (by omega)
    have hproperty : ∀ e, property = .computed e → e.Recovers k :=
      fun e he => (ihp e he).mono (by omega)
    exact (readBack_member hbase hproperty optional).mono (by rw [Expr.height]; omega)
  | @call callee arguments hc ha optional ihc iha =>
    let k := 3 * max callee.height (heightOfExprs arguments) + 1
    have hcallee : callee.Recovers k := hc.recovers_of ihc (by omega)
    have harguments := recoversArguments_of (k := k) iha (by omega)
    exact (readBack_call hcallee harguments optional).mono (by rw [Expr.height]; omega)
  | @array elements h ih =>
    have helements : ∀ e, some e ∈ elements →
        e.RecoversArgument (3 * heightOfElements elements + 1) := by
      intro e he
      have hle := height_le_elements he
      exact (ih e he).mono (by omega)
    exact (readBack_array helements).mono (by rw [Expr.height]; omega)
  | @object properties h ih =>
    have hproperties : ∀ p ∈ properties, p.Recovers (3 * heightOfProperties properties + 1) := by
      intro p hp
      have hle := height_le_properties hp
      exact (ih p hp).mono (by omega)
    exact (readBack_object hproperties).mono (by rw [Expr.height]; omega)
  | @arrow isAsync params body hps hlast hb ihps ihb =>
    let k := 3 * max (heightOfPatterns params) body.height
    have hparams := recoversParams_of (k := k + 1) hps hlast ihps (by omega)
    have hbody : body.Recovers k := hb.recovers_of ihb (by omega)
    refine (readBack_arrow hparams (recovers_body hbody) isAsync).mono ?_
    rw [Expr.height, Body.height]
    omega
  | @arrowBlock isAsync params hps hlast ihps =>
    have hparams := recoversParams_of hps hlast ihps (Nat.le_refl _)
    refine (readBack_arrow hparams (recovers_block _) isAsync).mono ?_
    rw [Expr.height, Body.height]
    omega
  | @function isAsync name params hps hlast ihps =>
    have hparams := recoversParams_of hps hlast ihps (Nat.le_refl _)
    refine (readBack_function hparams isAsync name).mono ?_
    rw [Expr.height, Body.height]
    omega
  | @sequence items hlen h ih =>
    have hitems := recoversExprs_of h ih (Nat.le_refl _)
    exact (readBack_sequence hlen hitems).mono (by rw [Expr.height]; omega)
  | @assign op target value ht hv iht ihv =>
    have htarget : target.Recovers (3 * max target.height value.height) :=
      ht.recovers_of iht (by omega)
    have hvalue : value.Recovers (3 * max target.height value.height) :=
      hv.recovers_of ihv (by omega)
    exact (readBack_assign op htarget hvalue).mono (by rw [Expr.height]; omega)
  | @update op place argument h ih =>
    have hargument : argument.Recovers (3 * argument.height) := h.recovers_of ih (by omega)
    exact (readBack_update op place hargument).mono (by rw [Expr.height]; omega)
  | @new callee arguments hc ha ihc iha =>
    let k := 3 * max callee.height (heightOfExprs arguments) + 1
    have hcallee : callee.Recovers k := hc.recovers_of ihc (by omega)
    have harguments := recoversArguments_of (k := k) iha (by omega)
    exact (readBack_new hcallee harguments).mono (by rw [Expr.height]; omega)
  | @template quasis substitutions hlen h ih =>
    have hsubstitutions := recoversExprs_of h ih (Nat.le_refl _)
    exact (readBack_template hlen hsubstitutions).mono (by rw [Expr.height]; omega)
  | @tagged tag quasis substitutions ht hlen h iht ih =>
    let k := 3 * max tag.height (heightOfExprs substitutions)
    have htag : tag.Recovers k := ht.recovers_of iht (by omega)
    have hsubstitutions := recoversExprs_of (k := k) h ih (by omega)
    refine (readBack_tagged htag hlen hsubstitutions).mono ?_
    rw [Expr.height, Expr.height]
    omega
  | this => exact readBack_this 2
  | super => exact readBack_super 2
  | newTarget => exact readBack_newTarget 1
  | @argument e h ih =>
    -- an argument is no spread by itself, so it is a group
    exact (h.recovers_of ih (Nat.le_refl _)).argument h.isSpread_eq_false
  | @spread e h ih =>
    have he : e.Recovers (3 * e.height) := h.recovers_of ih (Nat.le_refl _)
    exact he.spread.mono (by rw [Expr.height]; omega)
  | fixed name => exact nofun
  | @computed e h ih =>
    intro e' heq
    cases heq
    exact h.recovers_of ih (Nat.le_refl _)
  | @value key e hk he ihk ihe =>
    let k := 3 * max key.height e.height
    have hkey : key.Recovers (k + 1) := recovers_key fun e' he' => (ihk e' he').mono (by omega)
    have hvalue : e.Recovers k := he.recovers_of ihe (by omega)
    exact recovers_value hkey hvalue
  | @shorthand name _ => exact recovers_shorthand _ name
  | @shorthandDefault name e _ he ih =>
    have hvalue : e.Recovers (3 * e.height) := he.recovers_of ih (Nat.le_refl _)
    refine (recovers_shorthandDefault hvalue name).mono ?_
    rw [Property.height, Expr.height]
    omega
  | @method kind key isAsync params hkind hasync hk hps hlast ihk ihps =>
    let k := 3 * max key.height (heightOfPatterns params)
    have hkey : key.Recovers (k + 1) := recovers_key fun e he => (ihk e he).mono (by omega)
    have hparams := recoversParams_of (k := k + 1) hps hlast ihps (by omega)
    refine (recovers_method hkind hasync hkey hparams).mono ?_
    rw [Property.height, Expr.height, Body.height]
    omega
  | @spreadProperty e he ih =>
    exact recovers_spreadProperty (he.recovers_of ih (Nat.le_refl _))
  | name name => exact recoversTarget_name _ name
  | @objectTarget properties h ih =>
    have hproperties : ∀ p ∈ properties,
        p.Recovers (3 * heightOfPatternProperties properties + 1) := by
      intro p hp
      have hle := height_le_patternProperties hp
      exact (ih p hp).mono (by omega)
    exact (recoversTarget_object hproperties).mono (by rw [Pattern.height]; omega)
  | @arrayTarget elements h hlast ih =>
    have helements : ∀ p, some p ∈ elements →
        p.RecoversParameter (3 * heightOfPatternElements elements) := by
      intro p hp
      have hle := height_le_patternElements hp
      exact (ih p hp).mono (by omega)
    exact (recoversTarget_array helements hlast).mono (by rw [Pattern.height]; omega)
  | target h ih => exact ih.binding
  | @default p e hp he ihp ihe =>
    let k := 3 * max p.height e.height
    have htarget : p.RecoversTarget (k + 1) := ihp.mono (by omega)
    have hvalue : e.Recovers k := he.recovers_of ihe (by omega)
    exact (recoversBinding_default htarget hvalue).mono (by rw [Pattern.height]; omega)
  | binding h ih => exact ih.parameter h.isRest_eq_false
  | @rest p h ih => exact ih.rest.mono (by rw [Pattern.height]; omega)
  | @patternValue key p hk hp ihk ihp =>
    let k := 3 * max key.height p.height
    have hkey : key.Recovers (k + 1) := recovers_key fun e he => (ihk e he).mono (by omega)
    have hbinding : p.RecoversBinding (k + 1) := ihp.mono (by omega)
    exact recovers_patternValue hkey hbinding
  | patternRest h ih => exact (recovers_patternRest ih).mono (Nat.le_succ _)

end

/-! ### Whole texts -/

theorem Formed.complete_reads {P : String → Prop} {e : Expr} (h : Formed P (.expr e))
    {last : Token} (hlast : last.kind = .eof) :
    Reads (3 * e.height) Parse.complete (e.tokens ++ [last]) e [last] :=
  Reads.complete hlast (h.recovers [last] (.inr hlast))

theorem formed_of_complete {ts : List Token} {e : Expr} {s : Stream}
    (h : Parse.complete.run { rest := ts } = (.ok e, s)) :
    Formed (fun _ => True) (.expr e) := by
  have hformed := Triple.run_ok (complete_formed fun _ => True) (fun _ _ _ _ => trivial) h
  exact hformed.2

/-- A tree that was read from any tokens is read again from its spelling, or its
spelling nests too deeply; the former if its height is at most 42. -/
theorem complete_tokens {ts : List Token} {e : Expr} {s : Stream}
    (h : Parse.complete.run { rest := ts } = (.ok e, s)) {last : Token}
    (hlast : last.kind = .eof) :
    let again := (Parse.complete.run { rest := e.tokens ++ [last] }).1
    (again = .ok e ∨ ∃ error, again = .error error ∧
      error.cause.message = "Expression nested too deeply") ∧
    (e.height ≤ 42 → again = .ok e) := by
  have hreads := (formed_of_complete h).complete_reads hlast 0
  intro again
  rcases hreads with hok | ⟨hdeep, error, t, herror, hcause⟩
  · have hagain : again = .ok e := by
      show (Parse.complete.run ⟨e.tokens ++ [last], 0⟩).1 = .ok e
      rw [Parse.run, hok]
    exact ⟨.inl hagain, fun _ => hagain⟩
  · have hagain : again = .error error := by
      show (Parse.complete.run ⟨e.tokens ++ [last], 0⟩).1 = .error error
      rw [Parse.run, herror]
    refine ⟨.inr ⟨error, hagain, by rw [hcause]; rfl⟩, fun hheight => ?_⟩
    -- 42 is a third of the levels that there are
    unfold maxDepth at hdeep
    omega

/-- `!x` is read, and so is `!(x)`. -/
theorem complete_tokens_not :
    Parse.complete.run { rest := [mark .bang, .bare (.identifier "x"), .bare .eof] } =
      (.ok (.unary .not (.identifier "x")), { rest := [.bare .eof] }) ∧
    (Parse.complete.run { rest := [mark .bang, mark .leftParen, .bare (.identifier "x"),
      mark .rightParen, .bare .eof] }).1 = .ok (.unary .not (.identifier "x")) := by
  have hend : Closing [.bare .eof] := .inr rfl
  have hstart := startsPrimary_identifier "x"
  have hprimary : Reads 0 grammar.primary [.bare (.identifier "x"), .bare .eof] (.identifier "x")
      [.bare .eof] := reads_name rfl hend 0
  have hname : Reads 0 grammar.unary [.bare (.identifier "x"), .bare .eof] (.identifier "x")
      [.bare .eof] :=
    (hprimary.operand hstart.not_new (Nat.zero_lt_succ 6)).unary hstart.toStartsOperand
      (Nat.zero_lt_succ 5)
  have hnot : Reads 1 grammar.unary [mark .bang, .bare (.identifier "x"), .bare .eof]
      (.unary .not (.identifier "x")) [.bare .eof] :=
    .unfold (·.unary) (.kind_bind (.advance_bind rfl (.bind (.nested nofun hname) (.pure _ _ _))))
  have hrun : Parse.complete.run { rest := [mark .bang, .bare (.identifier "x"), .bare .eof] } =
      (.ok (.unary .not (.identifier "x")), { rest := [.bare .eof] }) := by
    rcases (hnot.sequence_of_unary nofun rfl).complete rfl 0 with hok | ⟨hdeep, -⟩
    · rw [Parse.run, hok]
    · exact absurd hdeep (by decide)
  have hspelling : (Expr.unary .not (.identifier "x")).tokens ++ [.bare .eof] =
      [mark .bang, mark .leftParen, .bare (.identifier "x"), mark .rightParen, .bare .eof] :=
    rfl
  refine ⟨hrun, ?_⟩
  rw [← hspelling]
  exact (complete_tokens hrun rfl).2 (by decide)

end TemplateVars
