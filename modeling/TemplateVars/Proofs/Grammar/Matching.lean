/-
The brackets in a spelling.

`Matched block ks` forgets of a spelling all but its brackets: they are properly nested,
and so are the pieces of template literals, the first one opening and the last one
closing what is between them.  What is in a function body is known by `block` only.

* `Spells.matched` — the brackets in a spelling match;
* `Matched.nested` — they are nested, if those in the bodies are;
* `Matched.same_braces` — if so, the lexer has the same open braces before and behind them;
* `Nested.balanced` — the search for an arrow passes over nested brackets.

Design notes: in a body that was passed over, a template may end that did not begin
there, as far as brackets go.  The lexer does not read it so: it would take the brace
that closes the body for one that goes on with the template.
-/
import TemplateVars.Proofs.Grammar.Derivation
import TemplateVars.Proofs.Token.Braces

namespace TemplateVars

open TemplateVars.Part Spelling

/-- Whether a token neither opens nor closes anything. -/
def TokenKind.isPlain : TokenKind → Bool
  | punct m => brackets.all fun p => m != p.1 && m != p.2
  | templateHead _ => false
  | templateTail _ => false
  | k => !k.isTerminal

/-- Tokens whose brackets and templates match, with a body between some braces. -/
inductive Matched (block : List TokenKind → Prop) : List TokenKind → Prop where
  | nil : Matched block []
  | plain {k : TokenKind} {ks : List TokenKind} (hk : k.isPlain = true) (h : Matched block ks) :
      Matched block (k :: ks)
  | group {opening closing : Punctuator} {inner ks : List TokenKind}
      (hp : (opening, closing) ∈ brackets) (hinner : Matched block inner) (h : Matched block ks) :
      Matched block (.punct opening :: (inner ++ .punct closing :: ks))
  | template (first last : String) {inner ks : List TokenKind} (hinner : Matched block inner)
      (h : Matched block ks) :
      Matched block (.templateHead first :: (inner ++ .templateTail last :: ks))
  | body {inner ks : List TokenKind} (hinner : block inner) (h : Matched block ks) :
      Matched block (.punct .leftBrace :: (inner ++ .punct .rightBrace :: ks))

namespace Matched

variable {block : List TokenKind → Prop} {k : TokenKind} {ks ks' : List TokenKind}

theorem append (h : Matched block ks) (h' : Matched block ks') : Matched block (ks ++ ks') := by
  induction h with
  | nil => exact h'
  | plain hk _ ih => exact .plain hk ih
  | group hp hinner _ _ ih =>
    rw [List.cons_append, List.append_assoc]
    exact .group hp hinner ih
  | template first last hinner _ _ ih =>
    rw [List.cons_append, List.append_assoc]
    exact .template first last hinner ih
  | body hinner _ ih =>
    rw [List.cons_append, List.append_assoc]
    exact .body hinner ih

/-- Something with a plain token behind it. -/
theorem joined (h : Matched block ks) (hk : k.isPlain = true) (h' : Matched block ks') :
    Matched block (ks ++ k :: ks') :=
  h.append (.plain hk h')

theorem single (hk : k.isPlain = true) : Matched block [k] := .plain hk .nil

theorem perhaps (there : Bool) {m : Punctuator} (hm : (TokenKind.punct m).isPlain = true) :
    Matched block (perhaps there m) := by
  cases there with
  | false => exact .nil
  | true => exact .single hm

theorem enclosed {opening closing : Punctuator} (hp : (opening, closing) ∈ brackets)
    (h : Matched block ks) : Matched block (enclosed opening closing ks) :=
  .group hp h .nil

theorem parentheses (h : Matched block ks) :
    Matched block (TemplateVars.enclosed .leftParen .rightParen ks) :=
  h.enclosed (by decide)

theorem squares (h : Matched block ks) :
    Matched block (TemplateVars.enclosed .leftBracket .rightBracket ks) :=
  h.enclosed (by decide)

theorem curly (h : Matched block ks) :
    Matched block (TemplateVars.enclosed .leftBrace .rightBrace ks) :=
  h.enclosed (by decide)

theorem async (isAsync : Bool) : Matched block (kinds (Spelling.async isAsync)) := by
  cases isAsync with
  | false => exact .nil
  | true => exact .single rfl

theorem modifier (kind : PropertyKind) (isAsync : Bool) :
    Matched block (kinds (Spelling.modifier kind isAsync)) := by
  cases kind with
  | get => exact .single rfl
  | set => exact .single rfl
  | _ => exact .async isAsync

theorem functionName (name : Option String) : Matched block (nameKinds name) := by
  cases name with
  | none => exact .nil
  | some name => exact .single rfl

end Matched

theorem plain_of_word {k : TokenKind} {name : String} (hk : k.keywordText? = some name) :
    k.isPlain = true := by
  cases k <;> first | rfl | exact nomatch hk

theorem plain_of_member {k : TokenKind} {name : String} (hk : k.NamesMember name) :
    k.isPlain = true := by
  rcases hk with rfl | hk
  · rfl
  · exact plain_of_word hk

theorem plain_of_property {k : TokenKind} {name : String} (hk : k.NamesProperty name) :
    k.isPlain = true := by
  obtain hk | rfl | rfl | ⟨value, rfl, -⟩ := hk
  · exact plain_of_member hk
  all_goals rfl

/-- What matches in the tokens of a part: those of substitutions are followed by the
piece that ends their template. -/
def Part.Matches (block : List TokenKind → Prop) : Part → List TokenKind → Prop
  | .pieces _ _, ks => ∃ inner last, ks = inner ++ [.templateTail last] ∧ Matched block inner
  | _, ks => Matched block ks

/-- The brackets in a spelling match. -/
theorem Spells.matches {block : List TokenKind → Prop} {part : Part} {ks : List TokenKind}
    (h : Spells block part ks) : part.Matches block ks := by
  induction h with
  | parentheses _ ih => exact .parentheses ih
  | identifier name => exact .single rfl
  | literal value =>
    refine .single ?_
    cases value with
    | boolean b => cases b <;> rfl
    | _ => rfl
  | binary op _ _ ihl ihr => exact .joined ihl (by cases op <;> rfl) ihr
  | logical op _ _ ihl ihr => exact .joined ihl (by cases op <;> rfl) ihr
  | unary op _ ih => exact .plain (by cases op <;> rfl) ih
  | conditional _ _ _ iht ihc iha => exact .joined iht rfl (.joined ihc rfl iha)
  | memberName _ hk optional ih =>
    exact .append ih (.plain (by cases optional <;> rfl) (.single (plain_of_member hk)))
  | memberComputed _ _ optional ihb ihp =>
    exact .append ihb (.append (.perhaps optional rfl) (.squares ihp))
  | call _ _ optional ihc iha =>
    exact .append ihc (.append (.perhaps optional rfl) (.parentheses iha))
  | array _ ih => exact .squares ih
  | object _ ih => exact .curly ih
  | arrow isAsync _ _ ihps ihb =>
    exact .append (.async isAsync) (.joined (.parentheses ihps) rfl ihb)
  | arrowName isAsync name _ ih => exact .append (.async isAsync) (.plain rfl (.plain rfl ih))
  | function isAsync generator name _ _ ihps ihb =>
    exact .append (.async isAsync) (.plain rfl (.append (.perhaps generator rfl)
      (.append (.functionName name) (.append (.parentheses ihps) ihb))))
  | sequence _ ih => exact ih
  | assign op _ _ iht ihv => exact .joined iht rfl ihv
  | updateBefore op _ ih => exact .plain (by cases op <;> rfl) ih
  | updateAfter op _ ih => exact .append ih (.single (by cases op <;> rfl))
  | new _ _ ihc iha => exact .plain rfl (.append ihc (.parentheses iha))
  | newAlone _ ih => exact .plain rfl ih
  | templateLiteral _ ih => exact ih
  | tagged _ _ iht ihq => exact .append iht ihq
  | this => exact .single rfl
  | super => exact .single rfl
  | newTarget => exact .plain rfl (.plain rfl (.single rfl))
  | argument _ ih => exact ih
  | spread _ ih => exact .plain rfl ih
  | fixed hk => exact .single (plain_of_property hk)
  | computed _ ih => exact .squares ih
  | value _ _ ihk ihe => exact .joined ihk rfl ihe
  | shorthand name => exact .single rfl
  | shorthandDefault name _ ih => exact .plain rfl (.plain rfl ih)
  | method generator _ _ _ _ _ ihk ihps ihb =>
    exact .append (.modifier _ _) (.append (.perhaps generator rfl)
      (.append ihk (.append (.parentheses ihps) ihb)))
  | spreadProperty _ ih => exact .plain rfl ih
  | name name => exact .single rfl
  | objectTarget _ ih => exact .curly ih
  | arrayTarget _ ih => exact .squares ih
  | target _ ih => exact ih
  | default _ _ ihp ihe => exact .joined ihp rfl ihe
  | binding _ ih => exact ih
  | rest _ ih => exact .plain rfl ih
  | patternValue _ _ ihk ihp => exact .joined ihk rfl ihp
  | patternName name => exact .single rfl
  | patternNameDefault name _ ih => exact .plain rfl (.plain rfl ih)
  | patternRest _ ih => exact .plain rfl ih
  | bodyExpression _ ih => exact ih
  | bodyBlock h => exact .body h .nil
  | item _ ih => exact ih
  | itemBefore _ _ ih ihes => exact .joined ih rfl ihes
  | listedNil => exact .nil
  | listedHole _ ih => exact .plain rfl ih
  | listedLast _ ih => exact ih
  | listedBefore _ _ _ ih ihps => exact .joined ih rfl ihps
  | piecesLast last _ ih => exact ⟨_, last, rfl, ih⟩
  | piecesBefore middle _ _ ih ihes =>
    obtain ⟨inner, last, rfl, hinner⟩ := ihes
    exact ⟨_, last, (List.append_assoc _ (_ :: inner) _).symm, .joined ih rfl hinner⟩
  | templateWhole cooked => exact .single rfl
  | templateParts first _ ih =>
    obtain ⟨inner, last, rfl, hinner⟩ := ih
    exact .template first last hinner .nil

/-- The brackets in the spelling of an expression match. -/
theorem Spells.matched {block : List TokenKind → Prop} {e : Expr} {ks : List TokenKind}
    (h : Spells block (expr e) ks) : Matched block ks :=
  h.matches

/-! ### Nested brackets -/

theorem free_of_plain {k : TokenKind} (hk : k.isPlain = true) : brackets.Free k := by
  cases k with
  | punct m =>
    refine ⟨rfl, fun p hp => ?_⟩
    have hne := List.all_eq_true.1 hk p hp
    rw [Bool.and_eq_true, bne_iff_ne, bne_iff_ne] at hne
    exact ⟨fun h => hne.1 (TokenKind.punct.inj h), fun h => hne.2 (TokenKind.punct.inj h)⟩
  | templateHead => exact nomatch hk
  | templateTail => exact nomatch hk
  | invalid => exact nomatch hk
  | eof => exact nomatch hk
  | _ => exact ⟨rfl, fun _ _ => ⟨nofun, nofun⟩⟩

/-- Tokens whose brackets match have nested brackets, if the bodies do. -/
theorem Matched.nested {ks : List TokenKind} (h : Matched (Nested brackets) ks) :
    Nested brackets ks := by
  induction h with
  | nil => exact .nil
  | plain hk _ ih => exact .plain (free_of_plain hk) ih
  | group hp _ _ ihinner ih => exact .group hp ihinner ih
  | template first last _ _ ihinner ih =>
    refine .plain ⟨rfl, fun _ _ => ⟨nofun, nofun⟩⟩ (ihinner.append (.plain ?_ ih))
    exact ⟨rfl, fun _ _ => ⟨nofun, nofun⟩⟩
  | body hinner _ ih => exact .group (by decide) hinner ih

/-! ### Open braces -/

/-- Whether some substitutions are open inside of some braces. -/
def Deeper (outside inside : List Brace) : Prop :=
  ∃ n, inside = List.replicate n .substitution ++ outside

theorem braces_of_plain {k : TokenKind} (hk : k.isPlain = true) (inside : List Brace) :
    k.bracesAfter inside = inside := by
  unfold TokenKind.bracesAfter
  split
  · exact absurd hk (by decide)
  · exact absurd hk (by decide)
  · exact nomatch hk
  · exact nomatch hk
  · rfl

/-- A brace that closes a block does so where no substitution is open in it. -/
theorem Deeper.closing {outside inside : List Brace} (h : Deeper (.block :: outside) inside)
    (hfits : (TokenKind.punct .rightBrace).Fits inside) :
    (TokenKind.punct .rightBrace).bracesAfter inside = outside := by
  obtain ⟨n, rfl⟩ := h
  cases n with
  | zero => rfl
  | succ n => exact absurd rfl hfits

section

variable {pairs : Brackets} (hbraces : (Punctuator.leftBrace, Punctuator.rightBrace) ∈ pairs)
  (hpairs : ∀ p ∈ pairs, p ∈ brackets)

include hbraces

theorem Deeper.step {outside inside : List Brace} (h : Deeper (.block :: outside) inside)
    {k : TokenKind} (hk : pairs.Free k) (hfits : k.Fits inside) :
    Deeper (.block :: outside) (k.bracesAfter inside) := by
  obtain ⟨n, rfl⟩ := h
  have hbraces := hk.2 _ hbraces
  unfold TokenKind.bracesAfter
  split
  · exact absurd rfl hbraces.1
  · exact absurd rfl hbraces.2
  · exact ⟨n + 1, rfl⟩
  · -- only a template that began inside of the block may end there
    cases n with
    | zero => exact nomatch hfits
    | succ n => exact ⟨n, rfl⟩
  · exact ⟨n, rfl⟩

include hpairs

/-- Among nested brackets templates may begin, but none ends in which the tokens
stand. -/
theorem Nested.braced {ks : List TokenKind} (h : Nested pairs ks)
    {outside inside final : List Brace}
    (hinside : Deeper (.block :: outside) inside) (hks : Braced inside ks final) :
    Deeper (.block :: outside) final := by
  induction h generalizing outside inside final with
  | nil => cases hks; exact hinside
  | @plain k ks hk _ ih =>
    cases hks with
    | cons hfits hks =>
      exact ih (hinside.step hbraces hk hfits) hks
  | @group opening closing inner ks hp _ _ ihinner ih =>
    cases hks with
    | cons hfits hks =>
      obtain ⟨between, hinner, hks⟩ := hks.of_append
      cases hks with
      | cons hfits' hks =>
        refine ih ?_ hks
        have hp := hpairs _ hp
        simp only [brackets, List.mem_cons, List.not_mem_nil, or_false, Prod.mk.injEq] at hp
        obtain ⟨rfl, rfl⟩ | ⟨rfl, rfl⟩ | ⟨rfl, rfl⟩ := hp
        · exact ihinner hinside hinner
        · exact ihinner hinside hinner
        · -- the brace that closes the group closes no substitution in it
          rw [(ihinner ⟨0, rfl⟩ hinner).closing hfits']
          exact hinside

/-- Behind tokens whose brackets match, the braces that are open are those in front of
them, if some kinds of brackets are nested in the bodies. -/
theorem Matched.same_braces {ks : List TokenKind} (h : Matched (Nested pairs) ks)
    {inside final : List Brace} (hks : Braced inside ks final) : final = inside := by
  induction h generalizing inside final with
  | nil => cases hks; rfl
  | plain hk _ ih =>
    cases hks with
    | cons hfits hks => rw [ih hks, braces_of_plain hk]
  | @group opening closing inner ks hp _ _ ihinner ih =>
    cases hks with
    | cons hfits hks =>
      obtain ⟨between, hinner, hks⟩ := hks.of_append
      cases hks with
      | cons hfits' hks =>
        rw [ih hks, ihinner hinner]
        simp only [brackets, List.mem_cons, List.not_mem_nil, or_false, Prod.mk.injEq] at hp
        obtain ⟨rfl, rfl⟩ | ⟨rfl, rfl⟩ | ⟨rfl, rfl⟩ := hp <;> rfl
  | template first last _ _ ihinner ih =>
    cases hks with
    | cons hfits hks =>
      obtain ⟨between, hinner, hks⟩ := hks.of_append
      cases hks with
      | cons hfits' hks =>
        rw [ih hks, ihinner hinner]
        rfl
  | body hbody _ ih =>
    cases hks with
    | cons hfits hks =>
      obtain ⟨between, hinner, hks⟩ := hks.of_append
      cases hks with
      | cons hfits' hks =>
        rw [ih hks]
        exact (hbody.braced hbraces hpairs ⟨0, rfl⟩ hinner).closing hfits'

end

/-- The case of nested brackets of all kinds. -/
theorem Matched.braced {ks : List TokenKind} (h : Matched (Nested brackets) ks)
    {inside final : List Brace} (hks : Braced inside ks final) : final = inside :=
  h.same_braces (by decide) (fun _ hp => hp) hks

/-! ### The search for an arrow -/

/-- No mark opens brackets of one kind and closes those of another. -/
theorem brackets_apart : ∀ p ∈ brackets, ∀ q ∈ brackets, p.1 ≠ q.2 := by decide

/-- Among nested brackets each one that opens is closed behind nested ones. -/
theorem Nested.closes {ks front back : List TokenKind} {opening closing : Punctuator}
    (h : Nested brackets ks) (hks : ks = front ++ .punct opening :: back)
    (hp : (opening, closing) ∈ brackets) :
    ∃ inner closing after, (opening, closing) ∈ brackets ∧ Nested brackets inner ∧
      back = inner ++ .punct closing :: after := by
  induction h generalizing front back with
  | nil => exact absurd hks.symm (by simp)
  | plain hk _ ih =>
    cases front with
    | nil => exact absurd (List.cons.inj hks).1 (hk.2 _ hp).1
    | cons k front => exact ih (List.cons.inj hks).2
  | @group opening' closing' inner ks hp' hinner _ ihinner ih =>
    cases front with
    | nil =>
      obtain ⟨hopening, rfl⟩ := List.cons.inj hks
      rw [TokenKind.punct.inj hopening] at hp'
      exact ⟨inner, closing', ks, hp', hinner, rfl⟩
    | cons k front =>
      have hclosing : TokenKind.punct closing' ≠ .punct opening := fun h =>
        brackets_apart _ hp _ hp' (TokenKind.punct.inj h).symm
      obtain ⟨between, hfront, hrest⟩ | ⟨between, hinside, hrest⟩ :=
        List.append_eq_append_iff.1 (List.cons.inj hks).2
      · -- behind the bracket that closes the group
        cases between with
        | nil => exact absurd (List.cons.inj hrest).1 hclosing
        | cons k between => exact ih (List.cons.inj hrest).2
      · cases between with
        | nil => exact absurd (List.cons.inj hrest).1.symm hclosing
        | cons k between =>
          obtain ⟨rfl, rfl⟩ := List.cons.inj hrest
          obtain ⟨nested, closing, after, hclosing, hnested, rfl⟩ := ihinner hinside
          exact ⟨nested, closing, after ++ .punct closing' :: ks, hclosing, hnested,
            List.append_assoc nested (_ :: after) _⟩

theorem only_parentheses : ∀ p ∈ brackets, p.1 = .leftParen → p.2 = .rightParen := by decide

/-- The brackets of each pair are known as such to the search. -/
theorem brackets_known : ∀ p ∈ brackets, (TokenKind.punct p.1).opensBracket = true ∧
    (TokenKind.punct p.2).opensBracket = false ∧ (TokenKind.punct p.2).closesBracket = true := by
  decide

theorem opening_bracket {k : TokenKind} (h : k.opensBracket = true) :
    ∃ p ∈ brackets, k = .punct p.1 := by
  unfold TokenKind.opensBracket at h
  split at h
  · exact ⟨(.leftParen, .rightParen), by decide, rfl⟩
  · exact ⟨(.leftBracket, .rightBracket), by decide, rfl⟩
  · exact ⟨(.leftBrace, .rightBrace), by decide, rfl⟩
  · exact nomatch h

theorem closing_bracket {k : TokenKind} (h : k.closesBracket = true) :
    ∃ p ∈ brackets, k = .punct p.2 := by
  unfold TokenKind.closesBracket at h
  split at h
  · exact ⟨(.leftParen, .rightParen), by decide, rfl⟩
  · exact ⟨(.leftBracket, .rightBracket), by decide, rfl⟩
  · exact ⟨(.leftBrace, .rightBrace), by decide, rfl⟩
  · exact nomatch h

theorem plain_of_free {t : Token} (h : brackets.Free t.kind) : t.isPlain = true := by
  have hopens : t.kind.opensBracket = false := by
    refine Bool.eq_false_iff.2 fun hopens => ?_
    obtain ⟨p, hp, hk⟩ := opening_bracket hopens
    exact (h.2 p hp).1 hk
  have hcloses : t.kind.closesBracket = false := by
    refine Bool.eq_false_iff.2 fun hcloses => ?_
    obtain ⟨p, hp, hk⟩ := closing_bracket hcloses
    exact (h.2 p hp).2 hk
  rw [Token.isPlain, hopens, hcloses, h.1]
  rfl

theorem Nested.balanced {ts : List Token} (h : Nested brackets (kinds ts)) : Balanced ts := by
  generalize hks : kinds ts = ks at h
  induction h generalizing ts with
  | nil =>
    obtain rfl := List.map_eq_nil_iff.1 hks
    exact .nil
  | plain hk _ ih =>
    obtain ⟨t, ts, rfl, rfl, hts⟩ := List.map_eq_cons_iff.1 hks
    exact .cons (plain_of_free hk) (ih hts)
  | group hp _ _ ihinner ih =>
    obtain ⟨t, ts, rfl, ht, hts⟩ := List.map_eq_cons_iff.1 hks
    obtain ⟨inner, rest, rfl, hinner, hrest⟩ := List.map_eq_append_iff.1 hts
    obtain ⟨u, after, rfl, hu, hafter⟩ := List.map_eq_cons_iff.1 hrest
    obtain ⟨hopens, hno, hcloses⟩ := brackets_known _ hp
    rw [← ht] at hopens
    rw [← hu] at hno hcloses
    have := ((ihinner hinner).enclosed hopens hno hcloses).append (ih hafter)
    simpa using this

theorem arrowFollows_other {t : Token} {ts : List Token} (ht : t.kind ≠ .punct .leftParen) :
    arrowFollows (t :: ts) = false := by
  rw [arrowFollows, decide_eq_false ht, Bool.false_and]

theorem arrowNext_other {t : Token} {ts : List Token} (ht : t.kind ≠ .punct .arrow) :
    arrowNext (t :: ts) = false := by
  rw [arrowNext, decide_eq_false ht, Bool.false_and]

end TemplateVars
