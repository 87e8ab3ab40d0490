/-
The spellings of a tree.

`Spells block part ks` is an inductive account of the tokens that a part of a tree
may be written with, given by their kinds.  There is one rule for each
constructor of a tree; `block` holds of what may stand in a function body that is
passed over.  Beyond the form of each construct the rules allow

* parentheses around an expression,
* a comma behind the last item of a list,
* a name alone for a property with that name and the variable of that name,
* no arguments behind `new`, which is the same as `()`,
* a `*` behind `function` or in front of the name of a method.

Every part of a tree occurs once in the rule for it, and in the order of the
source.

* `Nested` — tokens whose brackets of some kinds are properly nested;
* `Spells.ne_nil` — only a list may be written with no tokens.

Design notes: the rules say nothing about how tightly operators bind.  A list is
a list of phrases, some of which may be lacking; only elements of arrays may be.
-/
import TemplateVars.Proofs.Grammar.Spelling

namespace TemplateVars

/-! ### Brackets -/

/-- Kinds of brackets, each with the mark that opens it and the one that closes
it. -/
abbrev Brackets := List (Punctuator × Punctuator)

def braces : Brackets := [(.leftBrace, .rightBrace)]

def brackets : Brackets :=
  [(.leftParen, .rightParen), (.leftBracket, .rightBracket), (.leftBrace, .rightBrace)]

/-- Whether a token is neither terminal nor one of some brackets. -/
def Brackets.Free (pairs : Brackets) (k : TokenKind) : Prop :=
  k.isTerminal = false ∧ ∀ p ∈ pairs, k ≠ .punct p.1 ∧ k ≠ .punct p.2

instance (pairs : Brackets) (k : TokenKind) : Decidable (pairs.Free k) :=
  inferInstanceAs (Decidable (_ ∧ _))

/-- Tokens among which brackets of some kinds are properly nested. -/
inductive Nested (pairs : Brackets) : List TokenKind → Prop where
  | nil : Nested pairs []
  | plain {k : TokenKind} {ks : List TokenKind} (hk : pairs.Free k) (h : Nested pairs ks) :
      Nested pairs (k :: ks)
  | group {opening closing : Punctuator} {inner ks : List TokenKind}
      (hp : (opening, closing) ∈ pairs) (hinner : Nested pairs inner) (h : Nested pairs ks) :
      Nested pairs (.punct opening :: (inner ++ .punct closing :: ks))

theorem Nested.append {pairs : Brackets} {ks ks' : List TokenKind} (h : Nested pairs ks)
    (h' : Nested pairs ks') : Nested pairs (ks ++ ks') := by
  induction h with
  | nil => exact h'
  | plain hk _ ih => exact .plain hk ih
  | group hp hinner _ _ ih =>
    rw [List.cons_append, List.append_assoc]
    exact .group hp hinner ih

/-! ### The pieces of a spelling -/

/-- The kinds of some tokens. -/
def kinds (ts : List Token) : List TokenKind := ts.map Token.kind

@[simp] theorem kinds_cons (t : Token) (ts : List Token) :
    kinds (t :: ts) = t.kind :: kinds ts := rfl

@[simp] theorem kinds_append (ts us : List Token) : kinds (ts ++ us) = kinds ts ++ kinds us :=
  List.map_append

/-- Tokens between two marks. -/
def enclosed (opening closing : Punctuator) (ks : List TokenKind) : List TokenKind :=
  .punct opening :: (ks ++ [.punct closing])

/-- A mark that is there or not. -/
def perhaps (there : Bool) (m : Punctuator) : List TokenKind :=
  if there then [.punct m] else []

/-- The name of a function, if it is written. -/
def nameKinds : Option String → List TokenKind
  | some name => [.identifier name]
  | none => []

/-- Whether a token is a name behind `.`; keywords are names there. -/
def TokenKind.NamesMember (k : TokenKind) (name : String) : Prop :=
  k = .identifier name ∨ k.keywordText? = some name

/-- Whether a token is the name of a property in an object literal or pattern. -/
def TokenKind.NamesProperty (k : TokenKind) (name : String) : Prop :=
  k.NamesMember name ∨ k = .string name ∨ k = .bigint name ∨
    ∃ value : Number, k = .number value ∧ value.text = name

/-- A part of a tree that is written as a whole. -/
inductive Part where
  | phrase (p : Phrase)
  | body (b : Body)
  /-- Expressions between commas, one at least. -/
  | items (es : List Expr)
  /-- Phrases between commas, some of which may be lacking. -/
  | listed (ps : List (Option Phrase))
  /-- Substitutions with the pieces of the template behind them. -/
  | pieces (quasis : List String) (substitutions : List Expr)
  | template (quasis : List String) (substitutions : List Expr)

namespace Part

def expr (e : Expr) : Part := .phrase (.expr e)

def arguments (as : List Expr) : Part := .listed (as.map fun a => some (.argument a))

def elements (es : List (Option Expr)) : Part := .listed (es.map fun e => e.map Phrase.argument)

def properties (ps : List Property) : Part := .listed (ps.map fun p => some (.property p))

def params (ps : List Pattern) : Part := .listed (ps.map fun p => some (.parameter p))

def patternProperties (ps : List PatternProperty) : Part :=
  .listed (ps.map fun p => some (.patternProperty p))

def patternElements (es : List (Option Pattern)) : Part :=
  .listed (es.map fun e => e.map Phrase.parameter)

end Part

/-- Whether a phrase is `...` with a parameter, behind which no comma stands. -/
def Phrase.isRest : Phrase → Bool
  | .parameter p => p.isRest
  | _ => false

open TemplateVars.Part Spelling

/-- The tokens that a part of a tree may be written with. -/
inductive Spells (block : List TokenKind → Prop) : Part → List TokenKind → Prop where
  | parentheses {e : Expr} {ks : List TokenKind} (h : Spells block (expr e) ks) :
      Spells block (expr e) (enclosed .leftParen .rightParen ks)
  | identifier (name : String) : Spells block (expr (.identifier name)) [.identifier name]
  | literal (value : Literal) : Spells block (expr (.literal value)) [Spelling.literal value]
  | binary (op : BinaryOperator) {left right : Expr} {ks ks' : List TokenKind}
      (hl : Spells block (expr left) ks) (hr : Spells block (expr right) ks') :
      Spells block (expr (.binary op left right)) (ks ++ op.token.kind :: ks')
  | logical (op : LogicalOperator) {left right : Expr} {ks ks' : List TokenKind}
      (hl : Spells block (expr left) ks) (hr : Spells block (expr right) ks') :
      Spells block (expr (.logical op left right)) (ks ++ op.token.kind :: ks')
  | unary (op : UnaryOperator) {argument : Expr} {ks : List TokenKind}
      (h : Spells block (expr argument) ks) :
      Spells block (expr (.unary op argument)) (op.token.kind :: ks)
  | conditional {test consequent alternate : Expr} {ks ks' ks'' : List TokenKind}
      (ht : Spells block (expr test) ks) (hc : Spells block (expr consequent) ks')
      (ha : Spells block (expr alternate) ks'') :
      Spells block (expr (.conditional test consequent alternate))
        (ks ++ .punct .question :: (ks' ++ .punct .colon :: ks''))
  | memberName {base : Expr} {ks : List TokenKind} {k : TokenKind} {name : String}
      (hb : Spells block (expr base) ks) (hk : k.NamesMember name) (optional : Bool) :
      Spells block (expr (.member base (.fixed name) optional))
        (ks ++ [.punct (if optional then .questionDot else .dot), k])
  | memberComputed {base property : Expr} {ks ks' : List TokenKind}
      (hb : Spells block (expr base) ks) (hp : Spells block (expr property) ks')
      (optional : Bool) :
      Spells block (expr (.member base (.computed property) optional))
        (ks ++ (perhaps optional .questionDot ++ enclosed .leftBracket .rightBracket ks'))
  | call {callee : Expr} {as : List Expr} {ks ks' : List TokenKind}
      (hc : Spells block (expr callee) ks) (ha : Spells block (arguments as) ks')
      (optional : Bool) :
      Spells block (expr (.call callee as optional))
        (ks ++ (perhaps optional .questionDot ++ enclosed .leftParen .rightParen ks'))
  | array {es : List (Option Expr)} {ks : List TokenKind} (h : Spells block (elements es) ks) :
      Spells block (expr (.array es)) (enclosed .leftBracket .rightBracket ks)
  | object {ps : List Property} {ks : List TokenKind} (h : Spells block (properties ps) ks) :
      Spells block (expr (.object ps)) (enclosed .leftBrace .rightBrace ks)
  | arrow (isAsync : Bool) {ps : List Pattern} {b : Body} {ks ks' : List TokenKind}
      (hps : Spells block (params ps) ks) (hb : Spells block (.body b) ks') :
      Spells block (expr (.function .arrow isAsync none ps b))
        (kinds (async isAsync) ++ (enclosed .leftParen .rightParen ks ++ .punct .arrow :: ks'))
  /-- The only parameter of an arrow function, if it is a name. -/
  | arrowName (isAsync : Bool) (name : String) {b : Body} {ks : List TokenKind}
      (hb : Spells block (.body b) ks) :
      Spells block (expr (.function .arrow isAsync none [.identifier name] b))
        (kinds (async isAsync) ++ .identifier name :: .punct .arrow :: ks)
  | function (isAsync generator : Bool) (name : Option String) {ps : List Pattern}
      {ks ks' : List TokenKind} (hps : Spells block (params ps) ks)
      (hb : Spells block (.body .block) ks') :
      Spells block (expr (.function .expression isAsync name ps .block))
        (kinds (async isAsync) ++ .keyword .function :: (perhaps generator .star ++
          (nameKinds name ++ (enclosed .leftParen .rightParen ks ++ ks'))))
  | sequence {e e' : Expr} {es : List Expr} {ks : List TokenKind}
      (h : Spells block (.items (e :: e' :: es)) ks) :
      Spells block (expr (.sequence (e :: e' :: es))) ks
  | assign (op : AssignOperator) {target value : Expr} {ks ks' : List TokenKind}
      (ht : Spells block (expr target) ks) (hv : Spells block (expr value) ks') :
      Spells block (expr (.assign op target value)) (ks ++ .assign op :: ks')
  | updateBefore (op : UpdateOperator) {argument : Expr} {ks : List TokenKind}
      (h : Spells block (expr argument) ks) :
      Spells block (expr (.update op .before argument)) (op.token.kind :: ks)
  | updateAfter (op : UpdateOperator) {argument : Expr} {ks : List TokenKind}
      (h : Spells block (expr argument) ks) :
      Spells block (expr (.update op .after argument)) (ks ++ [op.token.kind])
  | new {callee : Expr} {as : List Expr} {ks ks' : List TokenKind}
      (hc : Spells block (expr callee) ks) (ha : Spells block (arguments as) ks') :
      Spells block (expr (.new callee as))
        (.keyword .new :: (ks ++ enclosed .leftParen .rightParen ks'))
  | newAlone {callee : Expr} {ks : List TokenKind} (hc : Spells block (expr callee) ks) :
      Spells block (expr (.new callee [])) (.keyword .new :: ks)
  | templateLiteral {quasis : List String} {es : List Expr} {ks : List TokenKind}
      (h : Spells block (.template quasis es) ks) : Spells block (expr (.template quasis es)) ks
  | tagged {tag : Expr} {quasis : List String} {es : List Expr} {ks ks' : List TokenKind}
      (ht : Spells block (expr tag) ks) (hq : Spells block (.template quasis es) ks') :
      Spells block (expr (.tagged tag (.template quasis es))) (ks ++ ks')
  | this : Spells block (expr .this) [.keyword .this]
  | super : Spells block (expr .super) [.keyword .super]
  | newTarget : Spells block (expr .newTarget)
      [.keyword .new, .punct .dot, .identifier "target"]
  | argument {e : Expr} {ks : List TokenKind} (h : Spells block (expr e) ks) :
      Spells block (.phrase (.argument e)) ks
  | spread {e : Expr} {ks : List TokenKind} (h : Spells block (expr e) ks) :
      Spells block (.phrase (.argument (.spread e))) (.punct .ellipsis :: ks)
  | fixed {k : TokenKind} {name : String} (hk : k.NamesProperty name) :
      Spells block (.phrase (.key (.fixed name))) [k]
  | computed {e : Expr} {ks : List TokenKind} (h : Spells block (expr e) ks) :
      Spells block (.phrase (.key (.computed e))) (enclosed .leftBracket .rightBracket ks)
  | value {key : Key} {e : Expr} {ks ks' : List TokenKind}
      (hk : Spells block (.phrase (.key key)) ks) (he : Spells block (expr e) ks') :
      Spells block (.phrase (.property (.keyed key e .init false))) (ks ++ .punct .colon :: ks')
  | shorthand (name : String) :
      Spells block (.phrase (.property (.keyed (.fixed name) (.identifier name) .init true)))
        [.identifier name]
  | shorthandDefault (name : String) {e : Expr} {ks : List TokenKind}
      (he : Spells block (expr e) ks) :
      Spells block (.phrase (.property
        (.keyed (.fixed name) (.assign .plain (.identifier name) e) .init true)))
        (.identifier name :: .assign .plain :: ks)
  | method {kind : PropertyKind} {key : Key} {isAsync : Bool} (generator : Bool)
      {ps : List Pattern} {ks ks' ks'' : List TokenKind} (hkind : kind ≠ .init)
      (hasync : isAsync = true → kind = .method) (hk : Spells block (.phrase (.key key)) ks)
      (hps : Spells block (params ps) ks') (hb : Spells block (.body .block) ks'') :
      Spells block (.phrase (.property
        (.keyed key (.function .expression isAsync (Rule.methodName? key) ps .block) kind false)))
        (kinds (modifier kind isAsync) ++ (perhaps generator .star ++
          (ks ++ (enclosed .leftParen .rightParen ks' ++ ks''))))
  | spreadProperty {e : Expr} {ks : List TokenKind} (h : Spells block (expr e) ks) :
      Spells block (.phrase (.property (.spread e))) (.punct .ellipsis :: ks)
  | name (name : String) : Spells block (.phrase (.target (.identifier name))) [.identifier name]
  | objectTarget {ps : List PatternProperty} {ks : List TokenKind}
      (h : Spells block (patternProperties ps) ks) :
      Spells block (.phrase (.target (.object ps))) (enclosed .leftBrace .rightBrace ks)
  | arrayTarget {es : List (Option Pattern)} {ks : List TokenKind}
      (h : Spells block (patternElements es) ks) :
      Spells block (.phrase (.target (.array es))) (enclosed .leftBracket .rightBracket ks)
  | target {p : Pattern} {ks : List TokenKind} (h : Spells block (.phrase (.target p)) ks) :
      Spells block (.phrase (.binding p)) ks
  | default {p : Pattern} {e : Expr} {ks ks' : List TokenKind}
      (hp : Spells block (.phrase (.target p)) ks) (he : Spells block (expr e) ks') :
      Spells block (.phrase (.binding (.withDefault p e))) (ks ++ .assign .plain :: ks')
  | binding {p : Pattern} {ks : List TokenKind} (h : Spells block (.phrase (.binding p)) ks) :
      Spells block (.phrase (.parameter p)) ks
  | rest {p : Pattern} {ks : List TokenKind} (h : Spells block (.phrase (.target p)) ks) :
      Spells block (.phrase (.parameter (.rest p))) (.punct .ellipsis :: ks)
  | patternValue {key : Key} {p : Pattern} {ks ks' : List TokenKind}
      (hk : Spells block (.phrase (.key key)) ks) (hp : Spells block (.phrase (.binding p)) ks') :
      Spells block (.phrase (.patternProperty (.keyed key p))) (ks ++ .punct .colon :: ks')
  | patternName (name : String) :
      Spells block (.phrase (.patternProperty (.keyed (.fixed name) (.identifier name))))
        [.identifier name]
  | patternNameDefault (name : String) {e : Expr} {ks : List TokenKind}
      (he : Spells block (expr e) ks) :
      Spells block (.phrase (.patternProperty
        (.keyed (.fixed name) (.withDefault (.identifier name) e))))
        (.identifier name :: .assign .plain :: ks)
  | patternRest {p : Pattern} {ks : List TokenKind} (h : Spells block (.phrase (.target p)) ks) :
      Spells block (.phrase (.patternProperty (.rest p))) (.punct .ellipsis :: ks)
  | bodyExpression {e : Expr} {ks : List TokenKind} (h : Spells block (expr e) ks) :
      Spells block (.body (.expression e)) ks
  | bodyBlock {ks : List TokenKind} (h : block ks) :
      Spells block (.body .block) (enclosed .leftBrace .rightBrace ks)
  | item {e : Expr} {ks : List TokenKind} (h : Spells block (expr e) ks) :
      Spells block (.items [e]) ks
  | itemBefore {e : Expr} {es : List Expr} {ks ks' : List TokenKind}
      (h : Spells block (expr e) ks) (hes : Spells block (.items es) ks') :
      Spells block (.items (e :: es)) (ks ++ .punct .comma :: ks')
  | listedNil : Spells block (.listed []) []
  | listedHole {ps : List (Option Phrase)} {ks : List TokenKind}
      (h : Spells block (.listed ps) ks) :
      Spells block (.listed (none :: ps)) (.punct .comma :: ks)
  | listedLast {p : Phrase} {ks : List TokenKind} (h : Spells block (.phrase p) ks) :
      Spells block (.listed [some p]) ks
  | listedBefore {p : Phrase} {ps : List (Option Phrase)} {ks ks' : List TokenKind}
      (hrest : p.isRest = false) (h : Spells block (.phrase p) ks)
      (hps : Spells block (.listed ps) ks') :
      Spells block (.listed (some p :: ps)) (ks ++ .punct .comma :: ks')
  | piecesLast {e : Expr} {ks : List TokenKind} (cooked : String)
      (h : Spells block (expr e) ks) :
      Spells block (.pieces [cooked] [e]) (ks ++ [.templateTail cooked])
  | piecesBefore {e : Expr} {quasis : List String} {es : List Expr} {ks ks' : List TokenKind}
      (cooked : String) (h : Spells block (expr e) ks)
      (hes : Spells block (.pieces quasis es) ks') :
      Spells block (.pieces (cooked :: quasis) (e :: es)) (ks ++ .templateMiddle cooked :: ks')
  | templateWhole (cooked : String) : Spells block (.template [cooked] []) [.template cooked]
  | templateParts {quasis : List String} {es : List Expr} {ks : List TokenKind} (cooked : String)
      (h : Spells block (.pieces quasis es) ks) :
      Spells block (.template (cooked :: quasis) es) (.templateHead cooked :: ks)

/-- Whether a part may be written with no tokens: only a list may. -/
def Part.mayBeEmpty : Part → Bool
  | .listed _ => true
  | _ => false

/-- What is no list is written with some tokens. -/
theorem Spells.ne_nil {block : List TokenKind → Prop} {part : Part} {ks : List TokenKind}
    (h : Spells block part ks) (hpart : part.mayBeEmpty = false) : ks ≠ [] := by
  -- most rules write a token of their own; the others pass a part on
  induction h with
  | sequence h ih => exact ih rfl
  | templateLiteral h ih => exact ih rfl
  | tagged ht hq iht ihq => simp [iht rfl]
  | argument h ih => exact ih rfl
  | target h ih => exact ih rfl
  | binding h ih => exact ih rfl
  | bodyExpression h ih => exact ih rfl
  | item h ih => exact ih rfl
  | listedLast | listedNil => exact nomatch hpart
  | _ => simp [enclosed]

end TemplateVars
