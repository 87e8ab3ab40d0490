/-
Where the rules of the grammar start and stop among the tokens of a text.

`Rules.Keep all` says of rules at which places among the tokens `all` each of
them starts and stops:

* a rule for an expression goes from where an operand may begin to where one has
  ended;
* what follows an operand goes on from where one has ended;
* the inside of a pattern or of an object literal may start anywhere.

Consequences:

* `Rules.Keep.step` — rules keep to their places if those they call do;
* `expression_moves` — so the grammar reads an expression from where an operand
  may begin to where one has ended.

Design notes: only `primary` fails with `unexpected`.  There it matters how the
lexer reads a slash behind the token before; no other rule looks at that.
-/
import TemplateVars.Proofs.Grammar.Places
import TemplateVars.Grammar.Parse

namespace TemplateVars

open Place

/-- The place at which it turns out whether `async` starts a function. -/
def asyncPlace : Option Expr → Place
  | none => Begins.At (.identifier "async")
  | some _ => Ends

/-- Whether each rule goes from the places where it is called to those where its
callers go on. -/
structure Rules.Keep (all : List Token) (r : Rules) : Prop where
  sequence : Moves all Begins r.sequence fun _ => Ends
  assignment : Moves all Begins r.assignment fun _ => Ends
  conditional : Moves all Begins r.conditional fun _ => Ends
  binary (minPrecedence : Nat) : Moves all Begins (r.binary minPrecedence) fun _ => Ends
  exponent : Moves all Begins r.exponent fun _ => Ends
  unary : Moves all Begins r.unary fun _ => Ends
  operand : Moves all Begins r.operand fun _ => Ends
  suffixes (allowCalls : Bool) (object : Expr) :
    Moves all Ends (r.suffixes allowCalls object) fun _ => Ends
  construction : Moves all (Begins.At (.keyword .new)) r.construction fun _ => Ends
  arguments : Moves all (Anywhere.At (.punct .leftParen)) r.arguments fun _ => Ends
  primary : Moves all Begins r.primary fun _ => Ends
  asyncFunction? : Moves all (Begins.At (.identifier "async")) r.asyncFunction? asyncPlace
  parenthesized (isAsync : Bool) :
    Moves all (Anywhere.At (.punct .leftParen)) (r.parenthesized isAsync) fun _ => Ends
  arrowBody (isAsync : Bool) (params : List Pattern) :
    Moves all Begins (r.arrowBody isAsync params) fun _ => Ends
  functionExpression (isAsync : Bool) :
    Moves all Anywhere (r.functionExpression isAsync) fun _ => Ends
  parameters : Moves all Anywhere r.parameters fun _ => Anywhere
  bindingElement : Moves all Anywhere r.bindingElement fun _ => Anywhere
  bindingTarget : Moves all Anywhere r.bindingTarget fun _ => Anywhere
  arrayPattern : Moves all Anywhere r.arrayPattern fun _ => Anywhere
  objectPattern : Moves all Anywhere r.objectPattern fun _ => Anywhere
  arrayLiteral : Moves all (Anywhere.At (.punct .leftBracket)) r.arrayLiteral fun _ => Ends
  objectLiteral : Moves all Anywhere r.objectLiteral fun _ => Ends
  objectMember : Moves all Anywhere r.objectMember fun _ => Anywhere
  propertyKey : Moves all Anywhere r.propertyKey fun _ => Anywhere
  templateLiteral : Moves all Anywhere r.templateLiteral fun _ => Ends

namespace Rules.Keep

variable {all : List Token} {r : Rules}

/-! ### Operators -/

theorem infix_begins {k : TokenKind} {p : Nat} {op : InfixOperator}
    (h : k.infixOperator? = some (p, op)) :
    k.isTerminal = false ∧ k.allowsRegexAfter = true ∧ k.isAccess = false := by
  unfold TokenKind.infixOperator? at h
  split at h
  all_goals first
    | exact ⟨rfl, rfl, rfl⟩
    | exact nomatch h

theorem unary_begins {k : TokenKind} {op : UnaryOperator} (h : k.unaryOperator? = some op) :
    k.isTerminal = false ∧ k.allowsRegexAfter = true ∧ k.isAccess = false := by
  unfold TokenKind.unaryOperator? at h
  split at h
  all_goals first
    | exact ⟨rfl, rfl, rfl⟩
    | exact nomatch h

theorem update_live {k : TokenKind} {op : UpdateOperator} (h : k.updateOperator? = some op) :
    k.isTerminal = false ∧ k.allowsRegexAfter = false := by
  unfold TokenKind.updateOperator? at h
  split at h
  all_goals first
    | exact ⟨rfl, rfl⟩
    | exact nomatch h

theorem sequenceRule (h : r.Keep all) : Moves all Begins (Rule.sequence r) fun _ => Ends := by
  refine .bind h.assignment fun first => .bind (.collect (R := Ends) ?_) fun rest => ?_
  · exact .accept_begins rfl rfl (.bind h.assignment fun _ => .more) .stop
  · split <;> exact .pure

theorem assignmentRule (h : r.Keep all) : Moves all Begins (Rule.assignment r) fun _ => Ends := by
  refine .nested (.bind h.conditional fun target => .bind .kind fun k => ?_)
  split
  · exact .bind (.advance_begins rfl rfl rfl (.inl rfl)) fun _ => .bind h.assignment fun _ => .pure
  · exact .at_head .pure

theorem conditionalRule (h : r.Keep all) :
    Moves all Begins (Rule.conditional r) fun _ => Ends := by
  refine .bind (h.binary 1) fun test => .accept_begins rfl rfl ?_ .pure
  refine .bind h.assignment fun _ => .bind (.expect_begins rfl rfl) fun _ => ?_
  exact .bind h.assignment fun _ => .pure

theorem infixLink (h : r.Keep all) (minPrecedence : Nat) (left : Expr) :
    Moves all Ends (Rule.infixLink r minPrecedence left) fun _ => Ends := by
  refine .bind .kind fun k => ?_
  split
  · next heq =>
    -- `in` and `instanceof` are no names here, as an operand stands before them
    obtain ⟨hlive, hallows, haccess⟩ := infix_begins heq
    refine .ite (fun _ => .at_head .pure) fun _ => ?_
    refine .bind (.advance_begins hlive hallows haccess (.inr fun _ _ => Ends.not_access))
      fun _ => ?_
    exact .bind (h.binary _) fun _ => .pure
  · exact .at_head .pure

theorem binaryRule (h : r.Keep all) (minPrecedence : Nat) :
    Moves all Begins (Rule.binary r minPrecedence) fun _ => Ends :=
  .bind h.exponent fun first => .chain (h.infixLink minPrecedence) first

theorem exponentRule (h : r.Keep all) : Moves all Begins (Rule.exponent r) fun _ => Ends := by
  refine .bind h.unary fun base => .accept_begins rfl rfl ?_ .pure
  exact .bind (.nested h.exponent) fun _ => .pure

theorem postfixUpdate (argument : Expr) :
    Moves all Ends (Rule.postfixUpdate argument) fun _ => Ends := by
  refine .bind .ahead fun token => ?_
  split
  · next heq =>
    obtain ⟨hlive, hallows⟩ := update_live heq
    refine .of_ahead_zero (.ite (fun _ => .at_head .pure) fun _ => ?_)
    exact .bind (.advance_ends hlive hallows) fun _ => .pure
  · exact .of_ahead .pure

theorem unaryRule (h : r.Keep all) : Moves all Begins (Rule.unary r) fun _ => Ends := by
  refine .bind .kind fun k => ?_
  split
  · next heq =>
    obtain ⟨hlive, hallows, haccess⟩ := unary_begins heq
    refine .bind (.advance_begins hlive hallows haccess (.inr fun _ _ hb => hb.1)) fun _ => ?_
    exact .bind (.nested h.unary) fun _ => .pure
  · next heq =>
    -- a slash divides behind `++` and `--`, but the rule goes on with an operand
    refine .bind (S := fun _ => Begins) (.advance (fun _ _ hb => ?_) fun t _ _ _ hb => ?_)
      fun _ => ?_
    · rw [hb.2]
      exact (update_live heq).1
    · have hkind : t.kind = k := hb.2
      exact begins_update (hkind ▸ heq)
    · exact .bind (.nested h.unary) fun _ => .pure
  · exact .at_head (.bind h.operand postfixUpdate)

/-! ### Members and calls -/

theorem operandRule (h : r.Keep all) : Moves all Begins (Rule.operand r) fun _ => Ends := by
  refine .bind .kind fun k => .ite (fun hk => ?_) fun _ => ?_
  · subst hk
    exact .bind h.construction (h.suffixes true)
  · exact .at_head (.bind h.primary (h.suffixes true))

theorem memberName : Moves all Accesses Rule.memberName fun _ => Ends := by
  refine .bind .kind fun k => ?_
  split
  · exact .bind (.advance_ends rfl rfl) fun _ => .pure
  · next word _ heq =>
    -- a keyword behind `.` or `?.` is a name, which ends an operand
    refine .bind (S := fun _ => Ends) (.advance (fun _ _ hp => ?_) fun t _ _ _ hp => ?_)
      fun _ => .pure
    · rw [hp.2]
      exact TokenKind.live_of_word heq
    · have hkind : t.kind.keywordText? = some word := (congrArg _ hp.2).trans heq
      exact ends_name hp.1 (by rw [hkind]; rfl)
  · exact .fail nofun

theorem computedMember (h : r.Keep all) :
    Moves all (Anywhere.At (.punct .leftBracket)) (Rule.computedMember r) fun _ => Ends := by
  refine .bind (.advance_begins rfl rfl rfl (.inl rfl)) fun _ => ?_
  exact .bind h.sequence fun _ => .bind (.expect_ends rfl) fun _ => .pure

theorem suffix (h : r.Keep all) (allowCalls : Bool) (object : Expr) :
    Moves all Ends (Rule.suffix r allowCalls object) fun _ => Ends := by
  -- behind `?.` and an operand alike, only the bracket at the place matters
  have somewhere : ∀ {Q : Place} {k : TokenKind} before ts, (Q.At k) before ts →
      (Anywhere.At k) before ts := fun _ _ hp => ⟨trivial, hp.2⟩
  refine .bind .kind fun k => ?_
  split
  · refine .bind (.advance_accesses rfl rfl) fun _ => ?_
    exact .bind memberName fun _ => .pure
  · refine .ite (fun _ => .at_head .pure) fun _ => .bind (.advance_accesses rfl rfl) fun _ => ?_
    refine .bind .kind fun k => ?_
    split
    · exact .bind (h.arguments.weaken somewhere) fun _ => .pure
    · exact .bind (h.computedMember.weaken somewhere) fun _ => .pure
    · exact .at_head (.bind memberName fun _ => .pure)
  · exact .bind (h.computedMember.weaken somewhere) fun _ => .pure
  · refine .ite (fun _ => .at_head .pure) fun _ => ?_
    exact .bind (h.arguments.weaken somewhere) fun _ => .pure
  · exact .bind (.anywhere h.templateLiteral) fun _ => .pure
  · exact .bind (.anywhere h.templateLiteral) fun _ => .pure
  · exact .at_head .pure

theorem constructionRule (h : r.Keep all) :
    Moves all (Begins.At (.keyword .new)) (Rule.construction r) fun _ => Ends := by
  have callee : ∀ base, Moves all Ends (do
      let callee ← r.suffixes false base
      if ← Parse.check .leftParen then return Expr.new callee (← r.arguments)
      else return Expr.new callee []) fun _ => Ends := by
    refine fun base => .bind (h.suffixes false base) fun callee => .check_bind ?_ .pure
    exact .bind (h.arguments.weaken fun _ _ hp => ⟨trivial, hp.2⟩) fun _ => .pure
  refine .nested (.bind (.advance_begins rfl rfl rfl (.inr fun _ _ hb => hb.1)) fun _ => ?_)
  refine .accept_any ?_ ?_
  · refine .bind .kind fun k => .ite (fun hk => ?_) fun _ => .fail nofun
    subst hk
    exact .bind (.advance_ends rfl rfl) fun _ => .pure
  · refine .bind .kind fun k => .ite (fun hk => ?_) fun _ => ?_
    · subst hk
      exact .bind h.construction callee
    · exact .at_head (.bind h.primary callee)

theorem spreadable (h : r.Keep all) : Moves all Begins (Rule.spreadable r) fun _ => Ends :=
  .accept_begins rfl rfl (.bind h.assignment fun _ => .pure) h.assignment

theorem argumentsRule (h : r.Keep all) :
    Moves all (Anywhere.At (.punct .leftParen)) (Rule.arguments r) fun _ => Ends := by
  refine .bind (.advance_begins rfl rfl rfl (.inl rfl)) fun _ => ?_
  refine .bind (.collect (R := Anywhere) ?_) fun _ => .bind (.expect_ends rfl) fun _ => .pure
  refine .check_bind (.anywhere .stop) (.bind h.spreadable fun _ => ?_)
  exact .accept_begins rfl rfl .more (.anywhere .last)

/-! ### Primary expressions -/

theorem nameOrArrow (h : r.Keep all) (name : String) :
    Moves all (Begins.At (.identifier name)) (Rule.nameOrArrow r name) fun _ => Ends := by
  refine .bind .ahead fun next => .bind (.advance_ahead (S := Ends) (fun _ _ hb => ?_)
    fun t _ _ _ hb => ?_) fun _ => .ite (fun hnext => .of_ahead_zero ?_) fun _ => .of_ahead .pure
  · rw [hb.2]
    rfl
  · exact ends_cons hb.2 rfl
  · rw [hnext.1]
    exact .bind (.advance_begins rfl rfl rfl (.inl rfl)) fun _ => h.arrowBody false _

/-- No expression starts with the token at a place.  If that is a slash, the lexer
took an operand to have ended. -/
theorem unexpected (hslash : SlashesRight [] all) {k : TokenKind} :
    Moves all (Begins.At k) (Parse.fail (.unexpected k) : Parse Expr) fun _ => Ends := by
  refine Triple.fail fun ts hts =>
    ⟨(hts.slashRight hslash).mono fun before hb hcause => ?_, rfl, rfl⟩
  obtain ⟨⟨hbegins, hk⟩, hright⟩ := hb
  have hkind : k = .punct .slash ∨ k = .assign .divide := by
    rcases errorAt_cause ts (.unexpected k) with h | ⟨e, h⟩
    · rw [h] at hcause
      simpa using hcause
    · rw [h] at hcause
      exact hcause.elim nofun nofun
  -- the lexer made it a slash, so there it took an operand to have ended
  have hdivides : slashOpensRegex before = false := by
    rw [hk] at hright
    rcases hkind with rfl | rfl
    · exact hright
    · exact hright
  exact hbegins.2.resolve_left (Bool.eq_false_iff.1 hdivides)

theorem primaryRule (hslash : SlashesRight [] all) (h : r.Keep all) :
    Moves all Begins (Rule.primary r) fun _ => Ends := by
  have literal : ∀ {k : TokenKind} (value : Literal), k.isTerminal = false →
      k.allowsRegexAfter = false → Moves all (Begins.At k) (do
        Parse.advance
        return Expr.literal value) fun _ => Ends :=
    fun value hlive hallows => .bind (.advance_ends hlive hallows) fun _ => .pure
  refine .bind .kind fun k => ?_
  simp only []
  split
  · next name =>
    refine .ite (fun hname => ?_) fun _ => ?_
    · subst hname
      -- if no function follows, the place is still that of the word
      refine .bind h.asyncFunction? fun function? => ?_
      cases function? with
      | none => exact h.nameOrArrow "async"
      | some e => exact .pure
    · exact h.nameOrArrow name
  · exact literal _ rfl rfl
  · exact literal _ rfl rfl
  · exact literal _ rfl rfl
  · exact literal _ rfl rfl
  · exact literal _ rfl rfl
  · exact literal _ rfl rfl
  · exact literal _ rfl rfl
  · exact .bind (.advance_ends rfl rfl) fun _ => .pure
  · exact .bind (.advance_ends rfl rfl) fun _ => .pure
  · exact .anywhere h.templateLiteral
  · exact .anywhere h.templateLiteral
  · exact (h.parenthesized false).weaken fun _ _ hb => ⟨trivial, hb.2⟩
  · exact h.arrayLiteral.weaken fun _ _ hb => ⟨trivial, hb.2⟩
  · exact .anywhere h.objectLiteral
  · exact .anywhere (h.functionExpression false)
  · exact unexpected hslash

/-! ### Functions -/

theorem asyncFunctionRule (h : r.Keep all) :
    Moves all (Begins.At (.identifier "async")) (Rule.asyncFunction? r) asyncPlace := by
  have none_found : Moves all (Begins.At (.identifier "async")) (pure none) asyncPlace :=
    Triple.pure fun _ hts => hts
  have found : ∀ {Q : Place} {p : Parse Expr}, Moves all Q p (fun _ => Ends) →
      Moves all Q (do return some (← p)) asyncPlace :=
    fun hp => .bind hp fun _ => Triple.pure fun _ hts => hts
  have past : ∀ {n : Nat} {t : Token}, Moves all ((Begins.At (.identifier "async")).Ahead (n + 1) t)
      Parse.advance fun _ => Anywhere.Ahead n t :=
    .advance_ahead (fun _ _ hb => by rw [hb.2]; rfl) fun _ _ _ _ _ => trivial
  refine .bind .ahead fun next => .ite (fun _ => .of_ahead none_found) fun _ => ?_
  split
  · exact .bind past fun _ => found (.anywhere (h.functionExpression true))
  · next name hname =>
    refine .bind .ahead fun last =>
      .ite (fun harrow => ?_) fun _ => .of_ahead (.of_ahead none_found)
    -- the first two tokens are names, so the third one taken is `=>`
    refine .bind (.advance_ahead (S := Anywhere.Ahead 0 next) (fun _ _ hb => ?_)
      fun _ _ _ hrest hb => ⟨trivial, ?_⟩) fun _ => ?_
    · rw [hb.1.2]
      rfl
    · rw [← ahead_succ hrest, hb.2]
    refine .bind (.advance_ahead (S := Anywhere) (fun _ ts hb => ?_) fun _ _ _ _ _ => trivial)
      fun _ => .of_ahead_zero ?_
    · rw [← ahead_zero, hb.2, hname]
      rfl
    · rw [harrow]
      exact .bind (.advance_begins rfl rfl rfl (.inl rfl)) fun _ => found (h.arrowBody true _)
  · next hparen =>
    refine .bind .get fun _ => .ite (fun _ => .bind past fun _ => ?_) fun _ => .of_ahead none_found
    refine .of_ahead_zero (found ?_)
    rw [hparen]
    exact h.parenthesized true
  · exact .of_ahead none_found

theorem parenthesizedRule (h : r.Keep all) (isAsync : Bool) :
    Moves all (Anywhere.At (.punct .leftParen)) (Rule.parenthesized r isAsync) fun _ => Ends := by
  refine .bind .get fun _ => .ite (fun _ => ?_) fun _ => ?_
  · refine .bind (.anywhere h.parameters) fun params => ?_
    exact .bind (.expect_begins rfl rfl) fun _ => h.arrowBody isAsync params
  · refine .bind (.advance_begins rfl rfl rfl (.inl rfl)) fun _ => .bind h.sequence fun _ => ?_
    exact .bind (.expect_ends rfl) fun _ => .pure

theorem arrowBodyRule (h : r.Keep all) (isAsync : Bool) (params : List Pattern) :
    Moves all Begins (Rule.arrowBody r isAsync params) fun _ => Ends := by
  refine .check_bind ?_ ?_
  · exact .bind .skipBlock fun _ => .pure
  · exact .bind h.assignment fun _ => .pure

theorem functionName : Moves all Anywhere Rule.functionName? fun _ => Anywhere := by
  refine .bind .kind fun k => ?_
  split
  · exact .bind .advance_any fun _ => .pure
  · exact .anywhere .pure

theorem functionExpressionRule (h : r.Keep all) (isAsync : Bool) :
    Moves all Anywhere (Rule.functionExpression r isAsync) fun _ => Ends := by
  have rest : Moves all Anywhere (do
      let name ← Rule.functionName?
      let params ← r.parameters
      Rule.skipBlock
      return Expr.function .expression isAsync name params .block) fun _ => Ends :=
    .bind functionName fun _ => .bind h.parameters fun _ => .bind .skipBlock fun _ => .pure
  exact .bind .advance_any fun _ => .accept_any rest rest

/-! ### Parameters -/

theorem parametersRule (h : r.Keep all) :
    Moves all Anywhere (Rule.parameters r) fun _ => Anywhere := by
  refine .bind .expect_any fun _ => .bind (.collect (R := Anywhere) ?_) fun _ =>
    .bind .expect_any fun _ => .pure
  refine .check_bind (.at_head .stop) (.accept_any (.bind h.bindingTarget fun _ => .last) ?_)
  exact .bind h.bindingElement fun _ => .accept_any .more .last

theorem withDefault (h : r.Keep all) (target : Pattern) :
    Moves all Anywhere (Rule.withDefault r target) fun _ => Anywhere := by
  refine .bind .kind fun k => .ite (fun hk => ?_) fun _ => .at_head .pure
  subst hk
  refine .bind (.advance_begins rfl rfl rfl (.inl rfl)) fun _ => ?_
  exact .bind h.assignment fun _ => .anywhere .pure

theorem bindingElementRule (h : r.Keep all) :
    Moves all Anywhere (Rule.bindingElement r) fun _ => Anywhere :=
  .bind h.bindingTarget h.withDefault

theorem bindingTargetRule (h : r.Keep all) :
    Moves all Anywhere (Rule.bindingTarget r) fun _ => Anywhere := by
  refine .bind .kind fun k => ?_
  split
  · exact .bind .advance_any fun _ => .pure
  · exact .nested (.anywhere h.arrayPattern)
  · exact .nested (.anywhere h.objectPattern)
  · exact .fail nofun

theorem arrayPatternRule (h : r.Keep all) :
    Moves all Anywhere (Rule.arrayPattern r) fun _ => Anywhere := by
  refine .bind .advance_any fun _ => .bind (.collect (R := Anywhere) ?_) fun _ => .pure
  refine .accept_any .stop (.accept_any .more (.accept_any ?_ ?_))
  · exact .bind h.bindingTarget fun _ => .bind .expect_any fun _ => .last
  · refine .bind h.bindingElement fun _ => .check_bind (.at_head .more) ?_
    exact .bind .expect_any fun _ => .more

theorem patternProperty (h : r.Keep all) :
    Moves all Anywhere (Rule.patternProperty r) fun _ => Anywhere := by
  refine .accept_any (.bind h.bindingTarget fun _ => .pure) (.bind h.propertyKey fun key => ?_)
  refine .accept_any (.bind h.bindingElement fun _ => .pure) ?_
  obtain ⟨key, shorthand⟩ := key
  cases shorthand with
  | none => exact .fail nofun
  | some name => exact .bind (h.withDefault (.identifier name)) fun _ => .pure

theorem objectPatternRule (h : r.Keep all) :
    Moves all Anywhere (Rule.objectPattern r) fun _ => Anywhere := by
  refine .bind .advance_any fun _ => .bind (.collect (R := Anywhere) ?_) fun _ =>
    .bind .expect_any fun _ => .pure
  refine .check_bind (.at_head .stop) (.bind h.patternProperty fun _ => ?_)
  exact .accept_any .more .last

/-! ### Literals -/

theorem arrayLiteralRule (h : r.Keep all) :
    Moves all (Anywhere.At (.punct .leftBracket)) (Rule.arrayLiteral r) fun _ => Ends := by
  -- behind an element that the bracket follows nothing begins, but no more is read
  let element : Place := fun before ts => Begins before ts ∨ headKind ts = .punct .rightBracket
  have more : ∀ e : Option Expr, Moves all Begins (pure (.more e)) (Round element Ends) :=
    fun e => Moves.more.weaken fun _ _ hb => .inl hb
  refine .bind (.advance_begins rfl rfl rfl (.inl rfl)) fun _ => ?_
  refine .bind (.weaken (Q := element) (.collect (R := Ends) ?_) fun _ _ hb => .inl hb)
    fun _ => .pure
  refine .accept_bind (T := Begins) (fun _ _ _ ht => ends_cons ht rfl)
    (fun _ _ hb hne => hb.resolve_right hne) .stop ?_
  refine .accept_begins rfl rfl (more none) (.bind h.spreadable fun e => .check_bind ?_ ?_)
  · exact Moves.more.weaken fun _ _ hb => .inr hb.2
  · exact .bind (.expect_begins rfl rfl) fun _ => more (some e)

theorem objectLiteralRule (h : r.Keep all) :
    Moves all Anywhere (Rule.objectLiteral r) fun _ => Ends := by
  refine .bind .advance_any fun _ => .bind (.collect (R := Anywhere) ?_) fun _ =>
    .bind (.expect_ends rfl) fun _ => .pure
  refine .check_bind (.at_head .stop) (.bind h.objectMember fun _ => ?_)
  exact .accept_any .more .last

theorem modifier : Moves all Anywhere Rule.modifier fun _ => Anywhere := by
  refine .bind .kind fun k => .at_head ?_
  split
  · split
    · refine .bind .ahead fun _ => .of_ahead (.ite (fun _ => ?_) fun _ => .pure)
      exact .bind .advance_any fun _ => .pure
    · exact .pure
  · exact .pure

theorem shorthandValue (h : r.Keep all) (name : String) :
    Moves all Anywhere (Rule.shorthandValue r name) fun _ => Anywhere := by
  refine .bind .kind fun k => .ite (fun hk => ?_) fun _ => .at_head .pure
  subst hk
  refine .bind (.advance_begins rfl rfl rfl (.inl rfl)) fun _ => ?_
  exact .bind h.assignment fun _ => .anywhere .pure

theorem memberValue (h : r.Keep all) (kind : PropertyKind) (isAsync generator : Bool) (key : Key)
    (shorthand : Option String) :
    Moves all Anywhere (Rule.memberValue r kind isAsync generator key shorthand)
      fun _ => Anywhere := by
  refine .check_bind (.at_head ?_) ?_
  · exact .bind h.parameters fun _ => .bind .skipBlock fun _ => .anywhere .pure
  refine .ite (fun hc => absurd hc Bool.false_ne_true) fun _ => ?_
  suffices rest : Moves all Anywhere _ fun _ => Anywhere from
    .ite (fun _ => .bind (S := fun _ => Anywhere) (.fail (by rintro _ ⟨⟩)) fun _ => rest)
      fun _ => rest
  refine .accept_begins rfl rfl (.bind h.assignment fun _ => .anywhere .pure) ?_
  cases shorthand with
  | none => exact .fail (by rintro _ ⟨⟩)
  | some name => exact .bind (h.shorthandValue name) fun _ => .pure

theorem objectMemberRule (h : r.Keep all) :
    Moves all Anywhere (Rule.objectMember r) fun _ => Anywhere := by
  refine .accept_begins rfl rfl (.bind h.assignment fun _ => .anywhere .pure) ?_
  have value : ∀ (m : PropertyKind × Bool) (generator : Bool), Moves all Anywhere (do
      let key ← r.propertyKey
      Rule.memberValue r m.1 m.2 generator key.1 key.2) fun _ => Anywhere :=
    fun m generator => .bind h.propertyKey fun k => h.memberValue m.1 m.2 generator k.1 k.2
  exact .bind modifier fun m => .accept_any (value m true) (value m false)

theorem propertyKeyRule (h : r.Keep all) :
    Moves all Anywhere (Rule.propertyKey r) fun _ => Anywhere := by
  refine .bind .kind fun k => ?_
  split
  · exact .bind .advance_any fun _ => .pure
  · refine .bind (.advance_begins rfl rfl rfl (.inl rfl)) fun _ => .bind h.assignment fun _ => ?_
    exact .bind .expect_any fun _ => .pure
  · split
    · exact .bind .advance_any fun _ => .pure
    · exact .fail nofun

theorem substitution (h : r.Keep all) :
    Moves all Begins (Rule.substitution r) (Round Begins Ends) := by
  refine .bind h.sequence fun _ => .bind .kind fun k => ?_
  split
  · exact .bind (.advance_begins rfl rfl rfl (.inl rfl)) fun _ => .more
  · exact .bind (.advance_ends rfl rfl) fun _ => .last
  · exact .fail nofun

theorem templateLiteralRule (h : r.Keep all) :
    Moves all Anywhere (Rule.templateLiteral r) fun _ => Ends := by
  refine .bind .kind fun k => ?_
  split
  · exact .bind (.advance_ends rfl rfl) fun _ => .pure
  · refine .bind (.advance_begins rfl rfl rfl (.inl rfl)) fun _ => ?_
    exact .bind (.collect h.substitution) fun _ => .pure
  · exact .fail nofun

/-! ### The grammar -/

/-- Rules keep to their places if those they call do. -/
theorem step (hslash : SlashesRight [] all) (h : r.Keep all) : r.step.Keep all where
  sequence := h.sequenceRule
  assignment := h.assignmentRule
  conditional := h.conditionalRule
  binary := h.binaryRule
  exponent := h.exponentRule
  unary := h.unaryRule
  operand := h.operandRule
  suffixes allowCalls := .chain (h.suffix allowCalls)
  construction := h.constructionRule
  arguments := h.argumentsRule
  primary := h.primaryRule hslash
  asyncFunction? := h.asyncFunctionRule
  parenthesized := h.parenthesizedRule
  arrowBody := h.arrowBodyRule
  functionExpression := h.functionExpressionRule
  parameters := h.parametersRule
  bindingElement := h.bindingElementRule
  bindingTarget := h.bindingTargetRule
  arrayPattern := h.arrayPatternRule
  objectPattern := h.objectPatternRule
  arrayLiteral := h.arrayLiteralRule
  objectLiteral := h.objectLiteralRule
  objectMember := h.objectMemberRule
  propertyKey := h.propertyKeyRule
  templateLiteral := h.templateLiteralRule

theorem exhausted : Rules.exhausted.Keep all := by
  have stuck : ∀ {α : Type} {Q : Place} {R : α → Place},
      Moves all Q (Parse.fail .outOfSteps) R := .fail nofun
  exact {
    sequence := stuck
    assignment := stuck
    conditional := stuck
    binary _ := stuck
    exponent := stuck
    unary := stuck
    operand := stuck
    suffixes _ _ := stuck
    construction := stuck
    arguments := stuck
    primary := stuck
    asyncFunction? := stuck
    parenthesized _ := stuck
    arrowBody _ _ := stuck
    functionExpression _ := stuck
    parameters := stuck
    bindingElement := stuck
    bindingTarget := stuck
    arrayPattern := stuck
    objectPattern := stuck
    arrayLiteral := stuck
    objectLiteral := stuck
    objectMember := stuck
    propertyKey := stuck
    templateLiteral := stuck }

end Rules.Keep

/-- Rules for chains of any number of calls keep to their places. -/
theorem rules_keep {all : List Token} (hslash : SlashesRight [] all) (n : Nat) :
    (Grammar.rules n).Keep all := by
  induction n with
  | zero => exact .exhausted
  | succ n ih => exact ih.step hslash

/-- An expression is read from where an operand may begin to where one has ended. -/
theorem expression_moves {all : List Token} (hslash : SlashesRight [] all) :
    Moves all Begins Parse.expression fun _ => Ends := by
  refine .bind (rules_keep hslash _).sequence fun e => .bind .kind fun k => ?_
  split
  · exact .fail nofun
  · exact .at_head .pure

end TemplateVars
