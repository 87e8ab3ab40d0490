/-
The fully parenthesised spelling of a tree.

* `Expr.tokens` — the spelling, as tokens;
* `Expr.height` — how many expressions and patterns a path down the tree passes;
* `Formed.balanced` — the brackets of the spelling of a phrase are balanced, so a
  search for the end of a group skips it.

Design notes: each operand, argument, element, value, default, body, computed key
and substitution is a group.  The written name of a property is a string unless
it stands alone, and a block is `{ }`.  A hole is the lack of an element before a
comma, so a comma at the end of an array stands for a hole in front of it.
-/
import TemplateVars.Proofs.Grammar.Formed

namespace TemplateVars

/-- A token of a kind, at no place in particular. -/
def Token.bare (kind : TokenKind) : Token :=
  { kind := kind, start := {}, stop := 0, newlineBefore := false }

@[simp] theorem Token.bare_kind (kind : TokenKind) : (Token.bare kind).kind = kind := rfl

namespace Spelling

/-- A punctuator as a token. -/
def mark (m : Punctuator) : Token := .bare (.punct m)

/-- Tokens between two marks. -/
def between (opening closing : Punctuator) (ts : List Token) : List Token :=
  mark opening :: (ts ++ [mark closing])

/-- Tokens in parentheses. -/
def group (ts : List Token) : List Token := between .leftParen .rightParen ts

/-- A block of statements. -/
def block : List Token := between .leftBrace .rightBrace []

/-- Items between commas; an item that is lacking still has its comma. -/
def listed : List (Option (List Token)) → List Token
  | [] => []
  | none :: items => mark .comma :: listed items
  | [some ts] => ts
  | some ts :: items => ts ++ mark .comma :: listed items

/-- Substitutions with the pieces of the template behind them. -/
def pieces : List (List Token) → List String → List Token
  | [ts], [cooked] => ts ++ [.bare (.templateTail cooked)]
  | ts :: parts, cooked :: quasis => ts ++ .bare (.templateMiddle cooked) :: pieces parts quasis
  | _, _ => []

/-- A template from its pieces and its substitutions. -/
def template : List String → List (List Token) → List Token
  | [cooked], [] => [.bare (.template cooked)]
  | cooked :: quasis, parts => .bare (.templateHead cooked) :: pieces parts quasis
  | [], _ => []

/-- What stands in front of an asynchronous function. -/
def async (isAsync : Bool) : List Token := if isAsync then [.bare (.identifier "async")] else []

/-- The name of a function. -/
def functionName : Option String → List Token
  | some name => [.bare (.identifier name)]
  | none => []

/-- What stands in front of the name of a method. -/
def modifier : PropertyKind → Bool → List Token
  | .get, _ => [.bare (.identifier "get")]
  | .set, _ => [.bare (.identifier "set")]
  | _, isAsync => async isAsync

/-- The kind of a literal's token. -/
def literal : Literal → TokenKind
  | .number value => .number value
  | .bigint digits => .bigint digits
  | .string value => .string value
  | .boolean true => .keyword .truth
  | .boolean false => .keyword .falsity
  | .null => .keyword .null
  | .regex pattern flags => .regex pattern flags

end Spelling

open Spelling

/-- The token between the operands of an operator. -/
def BinaryOperator.token : BinaryOperator → Token
  | add => mark .plus
  | subtract => mark .minus
  | multiply => mark .star
  | divide => mark .slash
  | remainder => mark .percent
  | exponent => mark .starStar
  | equal => mark .equalEqual
  | notEqual => mark .notEqual
  | strictEqual => mark .strictEqual
  | strictNotEqual => mark .strictNotEqual
  | less => mark .less
  | lessEqual => mark .lessEqual
  | greater => mark .greater
  | greaterEqual => mark .greaterEqual
  | shiftLeft => mark .shiftLeft
  | shiftRight => mark .shiftRight
  | unsignedShiftRight => mark .unsignedShiftRight
  | bitAnd => mark .ampersand
  | bitOr => mark .pipe
  | bitXor => mark .caret
  | memberOf => .bare (.keyword .memberOf)
  | instanceOf => .bare (.keyword .instanceOf)

def LogicalOperator.token : LogicalOperator → Token
  | and => mark .ampAmp
  | or => mark .pipePipe
  | nullish => mark .questionQuestion

/-- The token in front of the operand of an operator. -/
def UnaryOperator.token : UnaryOperator → Token
  | not => mark .bang
  | bitNot => mark .tilde
  | plus => mark .plus
  | minus => mark .minus
  | typeof => .bare (.keyword .typeof)
  | void => .bare (.keyword .void)
  | delete => .bare (.keyword .delete)

def UpdateOperator.token : UpdateOperator → Token
  | increment => mark .plusPlus
  | decrement => mark .minusMinus

def Expr.isSpread : Expr → Bool
  | .spread _ => true
  | _ => false

theorem Formed.isSpread_eq_false {P : String → Prop} {e : Expr} (h : Formed P (.expr e)) :
    e.isSpread = false := by
  cases h <;> rfl

def Expr.isAsync : Expr → Bool
  | .function _ isAsync _ _ _ => isAsync
  | _ => false

mutual

/-- The fully parenthesised spelling of an expression. -/
def Expr.tokens : Expr → List Token
  | .identifier name => [.bare (.identifier name)]
  | .literal value => [.bare (literal value)]
  | .binary op left right => group left.tokens ++ op.token :: group right.tokens
  | .logical op left right => group left.tokens ++ op.token :: group right.tokens
  | .unary op argument => op.token :: group argument.tokens
  | .conditional test consequent alternate =>
    group test.tokens ++ mark .question :: group consequent.tokens ++
      mark .colon :: group alternate.tokens
  | .member base property optional => group base.tokens ++ property.accessTokens optional
  | .call callee arguments optional =>
    group callee.tokens ++ (if optional then [mark .questionDot] else []) ++
      group (listed (tokensOfArguments arguments))
  | .array elements => between .leftBracket .rightBracket (listed (tokensOfElements elements))
  | .object properties => between .leftBrace .rightBrace (listed (tokensOfProperties properties))
  | .function .arrow isAsync _ params body =>
    async isAsync ++ group (listed (tokensOfParams params)) ++ mark .arrow :: body.tokens
  | .function .expression isAsync name params _ =>
    async isAsync ++ .bare (.keyword .function) :: functionName name ++
      group (listed (tokensOfParams params)) ++ block
  | .sequence items => listed (tokensOfItems items)
  | .assign op target value =>
    group target.tokens ++ .bare (.assign op) :: group value.tokens
  | .update op .before argument => op.token :: group argument.tokens
  | .update op .after argument => group argument.tokens ++ [op.token]
  | .spread argument => mark .ellipsis :: group argument.tokens
  | .new callee arguments =>
    .bare (.keyword .new) :: group callee.tokens ++ group (listed (tokensOfArguments arguments))
  | .template quasis substitutions => template quasis (tokensOfSubstitutions substitutions)
  | .tagged tag quasi => group tag.tokens ++ quasi.tokens
  | .this => [.bare (.keyword .this)]
  | .super => [.bare (.keyword .super)]
  | .newTarget => [.bare (.keyword .new), mark .dot, .bare (.identifier "target")]

/-- The name of a property in an object literal or pattern. -/
def Key.tokens : Key → List Token
  | .fixed name => [.bare (.string name)]
  | .computed expression => between .leftBracket .rightBracket (group expression.tokens)

/-- The name of a property behind an object. -/
def Key.accessTokens (optional : Bool) : Key → List Token
  | .fixed name =>
    [mark (if optional then .questionDot else .dot), .bare (.identifier name)]
  | .computed expression =>
    (if optional then [mark .questionDot] else []) ++
      between .leftBracket .rightBracket (group expression.tokens)

/-- A property that stands for a variable of its name, perhaps with a
default. -/
def Expr.shorthandTokens : Expr → List Token
  | .assign _ (.identifier name) value =>
    .bare (.identifier name) :: .bare (.assign .plain) :: group value.tokens
  | .identifier name => [.bare (.identifier name)]
  | _ => []

/-- A method behind its name. -/
def Expr.methodTokens : Expr → List Token
  | .function _ _ _ params _ => group (listed (tokensOfParams params)) ++ block
  | _ => []

def Property.tokens : Property → List Token
  | .keyed key value kind shorthand =>
    if shorthand then value.shorthandTokens
    else if kind = .init then key.tokens ++ mark .colon :: group value.tokens
    else modifier kind value.isAsync ++ key.tokens ++ value.methodTokens
  | .spread argument => mark .ellipsis :: group argument.tokens

def Body.tokens : Body → List Token
  | .expression value => group value.tokens
  | .block => block

def Pattern.tokens : Pattern → List Token
  | .identifier name => [.bare (.identifier name)]
  | .object properties =>
    between .leftBrace .rightBrace (listed (tokensOfPatternProperties properties))
  | .array elements =>
    between .leftBracket .rightBracket (listed (tokensOfPatternElements elements))
  | .rest target => mark .ellipsis :: target.tokens
  | .withDefault target value =>
    target.tokens ++ .bare (.assign .plain) :: group value.tokens

def PatternProperty.tokens : PatternProperty → List Token
  | .keyed key value => key.tokens ++ mark .colon :: value.tokens
  | .rest target => mark .ellipsis :: target.tokens

def tokensOfItems : List Expr → List (Option (List Token))
  | [] => []
  | e :: rest => some (group e.tokens) :: tokensOfItems rest

def tokensOfSubstitutions : List Expr → List (List Token)
  | [] => []
  | e :: rest => group e.tokens :: tokensOfSubstitutions rest

def tokensOfArguments : List Expr → List (Option (List Token))
  | [] => []
  | e :: rest =>
    some (if e.isSpread then e.tokens else group e.tokens) :: tokensOfArguments rest

def tokensOfElements : List (Option Expr) → List (Option (List Token))
  | [] => []
  | none :: rest => none :: tokensOfElements rest
  | some e :: rest =>
    some (if e.isSpread then e.tokens else group e.tokens) :: tokensOfElements rest

def tokensOfProperties : List Property → List (Option (List Token))
  | [] => []
  | p :: rest => some p.tokens :: tokensOfProperties rest

def tokensOfParams : List Pattern → List (Option (List Token))
  | [] => []
  | p :: rest => some p.tokens :: tokensOfParams rest

def tokensOfPatternProperties : List PatternProperty → List (Option (List Token))
  | [] => []
  | p :: rest => some p.tokens :: tokensOfPatternProperties rest

def tokensOfPatternElements : List (Option Pattern) → List (Option (List Token))
  | [] => []
  | none :: rest => none :: tokensOfPatternElements rest
  | some p :: rest => some p.tokens :: tokensOfPatternElements rest

end

mutual

/-- How many expressions and patterns a path down an expression passes at
most. -/
def Expr.height : Expr → Nat
  | .identifier _ => 1
  | .literal _ => 1
  | .binary _ left right => max left.height right.height + 1
  | .logical _ left right => max left.height right.height + 1
  | .unary _ argument => argument.height + 1
  | .conditional test consequent alternate =>
    max test.height (max consequent.height alternate.height) + 1
  | .member base property _ => max base.height property.height + 1
  | .call callee arguments _ => max callee.height (heightOfExprs arguments) + 1
  | .array elements => heightOfElements elements + 1
  | .object properties => heightOfProperties properties + 1
  | .function _ _ _ params body => max (heightOfPatterns params) body.height + 1
  | .sequence items => heightOfExprs items + 1
  | .assign _ target value => max target.height value.height + 1
  | .update _ _ argument => argument.height + 1
  | .spread argument => argument.height + 1
  | .new callee arguments => max callee.height (heightOfExprs arguments) + 1
  | .template _ substitutions => heightOfExprs substitutions + 1
  | .tagged tag quasi => max tag.height quasi.height + 1
  | .this => 1
  | .super => 1
  | .newTarget => 1

def Key.height : Key → Nat
  | .fixed _ => 0
  | .computed expression => expression.height

def Property.height : Property → Nat
  | .keyed key value _ _ => max key.height value.height
  | .spread argument => argument.height

def Body.height : Body → Nat
  | .expression value => value.height
  | .block => 0

def Pattern.height : Pattern → Nat
  | .identifier _ => 1
  | .object properties => heightOfPatternProperties properties + 1
  | .array elements => heightOfPatternElements elements + 1
  | .rest target => target.height + 1
  | .withDefault target value => max target.height value.height + 1

def PatternProperty.height : PatternProperty → Nat
  | .keyed key value => max key.height value.height
  | .rest target => target.height

def heightOfExprs : List Expr → Nat
  | [] => 0
  | e :: rest => max e.height (heightOfExprs rest)

def heightOfElements : List (Option Expr) → Nat
  | [] => 0
  | none :: rest => heightOfElements rest
  | some e :: rest => max e.height (heightOfElements rest)

def heightOfProperties : List Property → Nat
  | [] => 0
  | p :: rest => max p.height (heightOfProperties rest)

def heightOfPatterns : List Pattern → Nat
  | [] => 0
  | p :: rest => max p.height (heightOfPatterns rest)

def heightOfPatternProperties : List PatternProperty → Nat
  | [] => 0
  | p :: rest => max p.height (heightOfPatternProperties rest)

def heightOfPatternElements : List (Option Pattern) → Nat
  | [] => 0
  | none :: rest => heightOfPatternElements rest
  | some p :: rest => max p.height (heightOfPatternElements rest)

end

/-! ### The parts of a list -/

/-- The spelling of an argument of a call or an element of an array literal. -/
def Expr.argumentTokens (e : Expr) : List Token := if e.isSpread then e.tokens else group e.tokens

theorem tokensOfItems_eq (es : List Expr) :
    tokensOfItems es = es.map fun e => some (group e.tokens) := by
  induction es with
  | nil => rfl
  | cons e es ih => rw [tokensOfItems, ih, List.map_cons]

theorem tokensOfSubstitutions_eq (es : List Expr) :
    tokensOfSubstitutions es = es.map fun e => group e.tokens := by
  induction es with
  | nil => rfl
  | cons e es ih => rw [tokensOfSubstitutions, ih, List.map_cons]

theorem tokensOfArguments_eq (es : List Expr) :
    tokensOfArguments es = es.map fun e => some e.argumentTokens := by
  induction es with
  | nil => rfl
  | cons e es ih => rw [tokensOfArguments, ih, List.map_cons]; rfl

theorem tokensOfElements_eq (es : List (Option Expr)) :
    tokensOfElements es = es.map fun e => e.map Expr.argumentTokens := by
  induction es with
  | nil => rfl
  | cons e es ih => cases e <;> rw [tokensOfElements, ih, List.map_cons] <;> rfl

theorem tokensOfProperties_eq (ps : List Property) :
    tokensOfProperties ps = ps.map fun p => some p.tokens := by
  induction ps with
  | nil => rfl
  | cons p ps ih => rw [tokensOfProperties, ih, List.map_cons]

theorem tokensOfParams_eq (ps : List Pattern) :
    tokensOfParams ps = ps.map fun p => some p.tokens := by
  induction ps with
  | nil => rfl
  | cons p ps ih => rw [tokensOfParams, ih, List.map_cons]

theorem tokensOfPatternProperties_eq (ps : List PatternProperty) :
    tokensOfPatternProperties ps = ps.map fun p => some p.tokens := by
  induction ps with
  | nil => rfl
  | cons p ps ih => rw [tokensOfPatternProperties, ih, List.map_cons]

theorem tokensOfPatternElements_eq (es : List (Option Pattern)) :
    tokensOfPatternElements es = es.map fun p => p.map Pattern.tokens := by
  induction es with
  | nil => rfl
  | cons p es ih => cases p <;> rw [tokensOfPatternElements, ih, List.map_cons] <;> rfl

/-- What takes the maximum at each item of a list is as much as any item. -/
theorem le_heights {α : Type} {f : α → Nat} {heights : List α → Nat}
    (hcons : ∀ a as, heights (a :: as) = max (f a) (heights as)) {a : α} {as : List α}
    (h : a ∈ as) : f a ≤ heights as := by
  induction as with
  | nil => exact absurd h List.not_mem_nil
  | cons b as ih =>
    rw [hcons]
    rcases List.mem_cons.1 h with rfl | h
    · exact Nat.le_max_left _ _
    · exact Nat.le_trans (ih h) (Nat.le_max_right _ _)

theorem height_le_exprs {e : Expr} {es : List Expr} (h : e ∈ es) : e.height ≤ heightOfExprs es :=
  le_heights (fun a as => by rw [heightOfExprs]) h

theorem height_le_properties {p : Property} {ps : List Property} (h : p ∈ ps) :
    p.height ≤ heightOfProperties ps :=
  le_heights (fun a as => by rw [heightOfProperties]) h

theorem height_le_patterns {p : Pattern} {ps : List Pattern} (h : p ∈ ps) :
    p.height ≤ heightOfPatterns ps :=
  le_heights (fun a as => by rw [heightOfPatterns]) h

theorem height_le_patternProperties {p : PatternProperty} {ps : List PatternProperty}
    (h : p ∈ ps) : p.height ≤ heightOfPatternProperties ps :=
  le_heights (fun a as => by rw [heightOfPatternProperties]) h

/-- A hole has no height. -/
theorem height_le_elements {e : Expr} {es : List (Option Expr)} (h : some e ∈ es) :
    e.height ≤ heightOfElements es := by
  refine le_heights (f := fun a : Option Expr => a.elim 0 Expr.height) (fun a as => ?_) h
  cases a with
  | none => rw [heightOfElements, Option.elim_none, Nat.zero_max]
  | some a => rw [heightOfElements, Option.elim_some]

theorem height_le_patternElements {p : Pattern} {es : List (Option Pattern)} (h : some p ∈ es) :
    p.height ≤ heightOfPatternElements es := by
  refine le_heights (f := fun a : Option Pattern => a.elim 0 Pattern.height) (fun a as => ?_) h
  cases a with
  | none => rw [heightOfPatternElements, Option.elim_none, Nat.zero_max]
  | some a => rw [heightOfPatternElements, Option.elim_some]

/-! ### Brackets -/

/-- Whether a token is no bracket and another one may follow it. -/
def Token.isPlain (t : Token) : Bool :=
  !t.kind.opensBracket && !t.kind.closesBracket && !t.kind.isTerminal

/-- Tokens that the search for the end of an open group passes over. -/
def Balanced (ts : List Token) : Prop :=
  ∀ opened after, 0 < opened →
    arrowAfterClosing opened (ts ++ after) = arrowAfterClosing opened after

namespace Balanced

variable {ts us : List Token}

theorem nil : Balanced [] := fun _ _ _ => rfl

theorem append (hts : Balanced ts) (hus : Balanced us) : Balanced (ts ++ us) := by
  intro opened after h
  rw [List.append_assoc, hts _ _ h, hus _ _ h]

theorem cons {t : Token} (ht : t.isPlain = true) (hts : Balanced ts) : Balanced (t :: ts) := by
  intro opened after h
  simp only [Token.isPlain, Bool.and_eq_true, Bool.not_eq_true'] at ht
  rw [List.cons_append, arrowAfterClosing, ht.1.1, ht.1.2, ht.2]
  exact hts _ _ h

/-- Balanced tokens between two brackets. -/
theorem enclosed {t u : Token} (hts : Balanced ts) (ht : t.kind.opensBracket = true)
    (hu : u.kind.opensBracket = false) (hu' : u.kind.closesBracket = true) :
    Balanced (t :: (ts ++ [u])) := by
  intro opened after h
  rw [List.cons_append, List.append_assoc, arrowAfterClosing, if_pos ht, hts _ _ (Nat.succ_pos _),
    List.singleton_append, arrowAfterClosing, if_neg (Bool.eq_false_iff.1 hu), if_pos hu']
  -- the bracket that was opened first is still open
  exact if_neg (Nat.ne_of_gt h)

theorem between {opening closing : Punctuator} (hts : Balanced ts)
    (ho : (TokenKind.punct opening).opensBracket = true)
    (hc : (TokenKind.punct closing).opensBracket = false)
    (hc' : (TokenKind.punct closing).closesBracket = true) :
    Balanced (Spelling.between opening closing ts) :=
  hts.enclosed (t := mark opening) (u := mark closing) ho hc hc'

theorem group (hts : Balanced ts) : Balanced (group ts) := hts.between rfl rfl rfl

theorem block : Balanced block := nil.between rfl rfl rfl

theorem listed {items : List (Option (List Token))} (h : ∀ ts, some ts ∈ items → Balanced ts) :
    Balanced (listed items) := by
  induction items with
  | nil => exact nil
  | cons item items ih =>
    have hrest : Balanced (Spelling.listed items) :=
      ih fun ts hts => h ts (List.mem_cons_of_mem _ hts)
    cases item with
    | none => exact cons rfl hrest
    | some ts =>
      have hitem : Balanced ts := h ts List.mem_cons_self
      cases items with
      | nil => exact hitem
      | cons next items => exact hitem.append (cons rfl hrest)

/-- Items that are written one by one. -/
theorem listed_items {α : Type} {write : α → List Token} {as : List α}
    (h : ∀ a ∈ as, Balanced (write a)) :
    Balanced (Spelling.listed (as.map fun a => some (write a))) := by
  refine listed fun ts hts => ?_
  obtain ⟨a, ha, hts⟩ := List.mem_map.1 hts
  rw [← Option.some.inj hts]
  exact h a ha

/-- Items of which some may be lacking. -/
theorem listed_holes {α : Type} {write : α → List Token} {as : List (Option α)}
    (h : ∀ a, some a ∈ as → Balanced (write a)) :
    Balanced (Spelling.listed (as.map fun a => a.map write)) := by
  refine listed fun ts hts => ?_
  obtain ⟨item, hitem, hts⟩ := List.mem_map.1 hts
  obtain ⟨a, rfl, rfl⟩ := Option.map_eq_some_iff.1 hts
  exact h a hitem

theorem pieces {parts : List (List Token)} (h : ∀ ts ∈ parts, Balanced ts)
    (quasis : List String) : Balanced (pieces parts quasis) := by
  induction parts generalizing quasis with
  | nil => exact nil
  | cons part parts ih =>
    have hpart : Balanced part := h part List.mem_cons_self
    have hrest : ∀ qs, Balanced (Spelling.pieces parts qs) :=
      ih fun ts hts => h ts (List.mem_cons_of_mem _ hts)
    -- the last part ends the template, the others go on with it
    unfold Spelling.pieces
    split
    · next heq => obtain ⟨rfl, rfl⟩ := List.cons.inj heq; exact hpart.append (cons rfl nil)
    · next heq => obtain ⟨rfl, rfl⟩ := List.cons.inj heq; exact hpart.append (cons rfl (hrest _))
    · exact nil

theorem template {parts : List (List Token)} (h : ∀ ts ∈ parts, Balanced ts)
    (quasis : List String) : Balanced (template quasis parts) := by
  unfold Spelling.template
  split
  · exact cons rfl nil
  · exact cons rfl (pieces h _)
  · exact nil

end Balanced

/-- Balanced tokens in parentheses are found to be parameters if `=>` follows them. -/
theorem arrowFollows_enclosed {t u : Token} {ts : List Token} (h : Balanced ts)
    (ht : t.kind = .punct .leftParen) (hu : u.kind = .punct .rightParen) (after : List Token) :
    arrowFollows (t :: (ts ++ u :: after)) = arrowNext after := by
  -- the search starts behind the bracket that opens the group
  rw [arrowFollows, arrowAfterClosing, ht, if_pos rfl, h _ _ Nat.one_pos, arrowAfterClosing, hu]
  rfl

theorem arrowFollows_group {ts : List Token} (h : Balanced ts) (after : List Token) :
    arrowFollows (group ts ++ after) = arrowNext after := by
  rw [group, between, List.cons_append, List.append_assoc]
  exact arrowFollows_enclosed h rfl rfl after

theorem BinaryOperator.isPlain (op : BinaryOperator) : op.token.isPlain = true := by
  cases op <;> rfl

theorem LogicalOperator.isPlain (op : LogicalOperator) : op.token.isPlain = true := by
  cases op <;> rfl

theorem UnaryOperator.isPlain (op : UnaryOperator) : op.token.isPlain = true := by
  cases op <;> rfl

theorem UpdateOperator.isPlain (op : UpdateOperator) : op.token.isPlain = true := by
  cases op <;> rfl

theorem literal_isPlain (value : Literal) : (Token.bare (literal value)).isPlain = true := by
  cases value with
  | boolean b => cases b <;> rfl
  | _ => rfl

theorem async_balanced (isAsync : Bool) : Balanced (async isAsync) := by
  cases isAsync with
  | false => exact .nil
  | true => exact .cons rfl .nil

theorem functionName_balanced (name : Option String) : Balanced (functionName name) := by
  cases name with
  | none => exact .nil
  | some name => exact .cons rfl .nil

theorem modifier_balanced (kind : PropertyKind) (isAsync : Bool) :
    Balanced (modifier kind isAsync) := by
  cases kind with
  | get => exact .cons rfl .nil
  | set => exact .cons rfl .nil
  | init => exact async_balanced isAsync
  | method => exact async_balanced isAsync

/-- The spelling of a phrase. -/
def Phrase.tokens : Phrase → List Token
  | .expr e => e.tokens
  | .argument e => e.argumentTokens
  | .key k => k.tokens
  | .property p => p.tokens
  | .target p => p.tokens
  | .binding p => p.tokens
  | .parameter p => p.tokens
  | .patternProperty p => p.tokens

theorem balanced_params {params : List Pattern} (h : ∀ p ∈ params, Balanced p.tokens) :
    Balanced (group (listed (tokensOfParams params))) := by
  rw [tokensOfParams_eq]
  exact (Balanced.listed_items h).group

theorem balanced_arguments {arguments : List Expr}
    (h : ∀ a ∈ arguments, Balanced a.argumentTokens) :
    Balanced (group (listed (tokensOfArguments arguments))) := by
  rw [tokensOfArguments_eq]
  exact (Balanced.listed_items h).group

theorem balanced_template {substitutions : List Expr} (h : ∀ e ∈ substitutions, Balanced e.tokens)
    (quasis : List String) : Balanced (template quasis (tokensOfSubstitutions substitutions)) := by
  refine .template (fun ts hts => ?_) _
  rw [tokensOfSubstitutions_eq] at hts
  obtain ⟨e, he, rfl⟩ := List.mem_map.1 hts
  exact (h e he).group

/-- The brackets in the spelling of a phrase are balanced. -/
theorem Formed.balanced {P : String → Prop} {phrase : Phrase} (h : Formed P phrase) :
    Balanced phrase.tokens := by
  -- on how the phrase is formed: a part in brackets stays balanced, and what
  -- stands between two parts is never a bracket
  induction h with
  | identifier => exact .cons rfl .nil
  | literal value => exact .cons (literal_isPlain value) .nil
  | binary op hl hr ihl ihr => exact ihl.group.append (.cons op.isPlain ihr.group)
  | logical op hl hr ihl ihr => exact ihl.group.append (.cons op.isPlain ihr.group)
  | unary op h ih => exact .cons op.isPlain ih.group
  | conditional ht hc ha iht ihc iha =>
    exact (iht.group.append (.cons rfl ihc.group)).append (.cons rfl iha.group)
  | @member base property hb hp optional ihb ihp =>
    refine ihb.group.append ?_
    -- `.`, `?.`, `[` or `?.[`
    cases property with
    | fixed name => cases optional <;> exact .cons rfl (.cons rfl .nil)
    | computed e =>
      cases optional with
      | false => exact ihp
      | true => exact .cons rfl ihp
  | call hc ha optional ihc iha =>
    refine (ihc.group.append ?_).append (balanced_arguments iha)
    cases optional with
    | false => exact .nil
    | true => exact .cons rfl .nil
  | array h ih =>
    rw [Phrase.tokens, Expr.tokens, tokensOfElements_eq]
    exact (Balanced.listed_holes ih).between rfl rfl rfl
  | object h ih =>
    rw [Phrase.tokens, Expr.tokens, tokensOfProperties_eq]
    exact (Balanced.listed_items ih).between rfl rfl rfl
  | arrow isAsync hps hlast hb ihps ihb =>
    exact ((async_balanced isAsync).append (balanced_params ihps)).append (.cons rfl ihb.group)
  | arrowBlock isAsync hps hlast ihps =>
    exact ((async_balanced isAsync).append (balanced_params ihps)).append (.cons rfl .block)
  | function isAsync name hps hlast ihps =>
    refine (((async_balanced isAsync).append ?_).append (balanced_params ihps)).append .block
    exact .cons rfl (functionName_balanced name)
  | sequence hlen h ih =>
    rw [Phrase.tokens, Expr.tokens, tokensOfItems_eq]
    exact .listed_items fun e he => (ih e he).group
  | assign op ht hv iht ihv => exact iht.group.append (.cons rfl ihv.group)
  | update op place h ih =>
    cases place with
    | before => exact .cons op.isPlain ih.group
    | after => exact ih.group.append (.cons op.isPlain .nil)
  | new hc ha ihc iha =>
    exact (Balanced.cons rfl ihc.group).append (balanced_arguments iha)
  | template hlen h ih => exact balanced_template ih _
  | tagged ht hlen h iht ih => exact iht.group.append (balanced_template ih _)
  | this => exact .cons rfl .nil
  | super => exact .cons rfl .nil
  | newTarget => exact .cons rfl (.cons rfl (.cons rfl .nil))
  | @argument e h ih =>
    show Balanced e.argumentTokens
    unfold Expr.argumentTokens
    split
    · exact ih
    · exact ih.group
  | spread h ih => exact .cons rfl ih.group
  | fixed name => exact .cons rfl .nil
  | computed h ih => exact .between ih.group rfl rfl rfl
  | value hk he ihk ihe => exact ihk.append (.cons rfl ihe.group)
  | shorthand => exact .cons rfl .nil
  | shorthandDefault h he ih => exact .cons rfl (.cons rfl ih.group)
  | @method kind key isAsync params hkind hasync hk hps hlast ihk ihps =>
    simp only [Phrase.tokens, Property.tokens, Expr.methodTokens, if_neg hkind]
    exact ((modifier_balanced kind isAsync).append ihk).append
      ((balanced_params ihps).append .block)
  | spreadProperty h ih => exact .cons rfl ih.group
  | name => exact .cons rfl .nil
  | objectTarget h ih =>
    rw [Phrase.tokens, Pattern.tokens, tokensOfPatternProperties_eq]
    exact (Balanced.listed_items ih).between rfl rfl rfl
  | arrayTarget h hlast ih =>
    rw [Phrase.tokens, Pattern.tokens, tokensOfPatternElements_eq]
    exact (Balanced.listed_holes ih).between rfl rfl rfl
  | target h ih => exact ih
  | default hp he ihp ihe => exact ihp.append (.cons rfl ihe.group)
  | binding h ih => exact ih
  | rest h ih => exact .cons rfl ih
  | patternValue hk hp ihk ihp => exact ihk.append (.cons rfl ihp)
  | patternRest h ih => exact .cons rfl ih

end TemplateVars
