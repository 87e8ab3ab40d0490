/-
Braces and the substitutions of templates.

Three readers go by the braces in a text: the lexer, which decides what a `}` means; the
one that passes over a function body, which counts braces and nothing else; and the
grammar, which knows the pieces of templates by their kinds.  The main result is
`braces_agree`: they never disagree.

* `scanBraces` — the open braces and substitutions by the kinds of the tokens alone;
* `tokenize_braced` — the tokens of every text can be scanned;
* `closeBlock_braced` — a body ends with the brace that it began with.

Design notes: a body is not read, so its templates may be cut off by the braces that are
counted only if the lexer allows that.  It does not: a `}` inside of a substitution is no
token of its own.
-/
import TemplateVars.Proofs.Grammar.Matching
import TemplateVars.Proofs.Grammar.Soundness
import TemplateVars.Proofs.Token.Pass

namespace TemplateVars

/-! ### Scanning for braces -/

/-- The open braces behind a token, if it may stand there. -/
def TokenKind.scanBrace (inside : List Brace) : TokenKind → Option (List Brace)
  | punct .leftBrace => some (.block :: inside)
  | templateHead _ => some (.substitution :: inside)
  | punct .rightBrace =>
    match inside with
    | [] => some []
    | .block :: outside => some outside
    | .substitution :: _ => none
  | templateMiddle _ =>
    match inside with
    | .substitution :: outside => some (.substitution :: outside)
    | _ => none
  | templateTail _ =>
    match inside with
    | .substitution :: outside => some outside
    | _ => none
  | _ => some inside

/-- The open braces behind some tokens; none if one of them may not stand where it does. -/
def scanBraces (inside : List Brace) (ks : List TokenKind) : Option (List Brace) :=
  ks.foldlM TokenKind.scanBrace inside

theorem TokenKind.scanBrace_eq_some {inside final : List Brace} {k : TokenKind} :
    k.scanBrace inside = some final ↔ k.Fits inside ∧ k.bracesAfter inside = final := by
  unfold scanBrace
  split
  · exact ⟨fun h => ⟨trivial, Option.some.inj h⟩, fun h => congrArg some h.2⟩
  · exact ⟨fun h => ⟨trivial, Option.some.inj h⟩, fun h => congrArg some h.2⟩
  · rcases inside with _ | ⟨_ | _, outside⟩ <;> simp [Fits, bracesAfter]
  · rcases inside with _ | ⟨_ | _, outside⟩ <;> simp [Fits, bracesAfter]
  · rcases inside with _ | ⟨_ | _, outside⟩ <;> simp [Fits, bracesAfter]
  · next hopen hhead hclose hmiddle htail =>
    have hfits : k.Fits inside := by
      unfold Fits
      split
      · exact absurd rfl hclose
      · exact absurd rfl (hmiddle _)
      · exact absurd rfl (htail _)
      · trivial
    have hafter : k.bracesAfter inside = inside := by
      unfold bracesAfter
      split
      · exact absurd rfl hopen
      · exact absurd rfl hclose
      · exact absurd rfl (hhead _)
      · exact absurd rfl (htail _)
      · rfl
    rw [hafter]
    exact ⟨fun h => ⟨hfits, Option.some.inj h⟩, fun h => congrArg some h.2⟩

/-- The lexer reads tokens between two stacks just if the scan goes from one to the other. -/
theorem scanBraces_eq_some {inside final : List Brace} {ks : List TokenKind} :
    scanBraces inside ks = some final ↔ Braced inside ks final := by
  induction ks generalizing inside with
  | nil =>
    refine ⟨fun h => ?_, fun h => ?_⟩
    · obtain rfl := Option.some.inj h
      exact .nil inside
    · cases h
      rfl
  | cons k ks ih =>
    rw [scanBraces, List.foldlM_cons, Option.bind_eq_bind, Option.bind_eq_some_iff]
    refine ⟨fun ⟨between, hk, hks⟩ => ?_, fun h => ?_⟩
    · obtain ⟨hfits, rfl⟩ := TokenKind.scanBrace_eq_some.1 hk
      exact .cons hfits (ih.1 hks)
    · cases h with
      | cons hfits hks => exact ⟨_, TokenKind.scanBrace_eq_some.2 ⟨hfits, rfl⟩, ih.2 hks⟩

namespace Braced

variable {inside between final : List Brace} {ks ks' : List TokenKind}

theorem append (h : Braced inside ks between) (h' : Braced between ks' final) :
    Braced inside (ks ++ ks') final := by
  induction h with
  | nil => exact h'
  | cons hk _ ih => exact .cons hk (ih h')

/-- One token between two stacks. -/
theorem single {k : TokenKind} (hk : k.Fits inside) :
    Braced inside [k] (k.bracesAfter inside) :=
  .cons hk (.nil _)

end Braced

/-! ### The lexer -/

/-- The tokens of a pass are read from the braces that are open at its start. -/
theorem Lexer.Reads.braced {l : Lexer} {access : Bool} {ts : List Token}
    (h : Reads l access ts) : ∃ final, Braced l.braces (kinds ts) final := by
  induction h with
  | comment => exact ⟨_, .single trivial⟩
  | ended => exact ⟨_, .single trivial⟩
  | failed => exact ⟨_, .single trivial⟩
  | @token l access newline used n first s kind ts _ _ hscan _ ih =>
    obtain ⟨final, hts⟩ := ih
    have hfits := scanToken_fits l.regexAllowed l.braces first s
    rw [hscan] at hfits
    refine ⟨final, .cons hfits ?_⟩
    rwa [after, skip_braces, skip_braces] at hts

theorem tokenize_braced (source : String) : ∃ final, Braced [] (kinds (tokenize source)) final :=
  (Lexer.reads_tokensFrom (.ofText source.toList) false).braced

/-! ### Bodies that are passed over -/

/-- Behind a token that is no brace, a block is open as it was in front of it, with as many
blocks inside of it. -/
theorem TokenKind.Fits.within {k : TokenKind} {above inside : List Brace}
    (hfits : k.Fits (above ++ .block :: inside)) (hopen : k ≠ .punct .leftBrace)
    (hclose : k ≠ .punct .rightBrace) :
    ∃ above', k.bracesAfter (above ++ .block :: inside) = above' ++ .block :: inside ∧
      above'.count .block = above.count .block := by
  unfold bracesAfter
  split
  · exact absurd rfl hopen
  · exact absurd rfl hclose
  · exact ⟨.substitution :: above, rfl, List.count_cons_of_ne (by decide)⟩
  · -- the substitution that ends has begun inside of the block
    cases above with
    | nil => exact nomatch hfits
    | cons brace above =>
      obtain rfl : brace = .substitution := Option.some.inj hfits
      exact ⟨above, rfl, (List.count_cons_of_ne (by decide)).symm⟩
  · exact ⟨above, rfl, rfl⟩

/-- Whether some tokens inside of a block, with some braces open in it, go on with the brace
that closes the block, and then with others.  Up to that brace the block stays open. -/
def ClosedBefore (above inside : List Brace) (ts rest : List Token) : Prop :=
  ∃ body closing, ts = body ++ closing :: rest ∧ closing.kind = .punct .rightBrace ∧
    Braced (above ++ .block :: inside) (kinds body) (.block :: inside) ∧
    ∀ part, part <+: body → ∃ above',
      Braced (above ++ .block :: inside) (kinds part) (above' ++ .block :: inside)

namespace ClosedBefore

variable {above above' inside : List Brace} {t : Token} {ts rest : List Token}

theorem here (ht : t.kind = .punct .rightBrace) : ClosedBefore [] inside (t :: rest) rest := by
  refine ⟨[], t, rfl, ht, .nil _, fun part hpart => ⟨[], ?_⟩⟩
  rw [List.prefix_nil.1 hpart]
  exact .nil _

theorem cons (hfits : t.kind.Fits (above ++ .block :: inside))
    (hafter : t.kind.bracesAfter (above ++ .block :: inside) = above' ++ .block :: inside)
    (h : ClosedBefore above' inside ts rest) : ClosedBefore above inside (t :: ts) rest := by
  obtain ⟨body, closing, rfl, hclosing, hbody, hparts⟩ := h
  have hstep : ∀ {us : List Token} {final : List Brace},
      Braced (above' ++ .block :: inside) (kinds us) final →
      Braced (above ++ .block :: inside) (kinds (t :: us)) final :=
    fun hus => .cons hfits (hafter ▸ hus)
  refine ⟨t :: body, closing, rfl, hclosing, hstep hbody, fun part hpart => ?_⟩
  cases part with
  | nil => exact ⟨above, .nil _⟩
  | cons u part =>
    obtain ⟨rfl, hbehind⟩ := List.cons_prefix_cons.1 hpart
    obtain ⟨above'', hpart⟩ := hparts part hbehind
    exact ⟨above'', hstep hpart⟩

end ClosedBefore

/-- A search for the end of a block ends behind the brace that closes it. -/
theorem closeBlock_braced {opened : Nat} {ts rest : List Token} (above : List Brace)
    {inside final : List Brace} (h : closeBlock opened ts = (true, rest))
    (hopened : above.count .block = opened)
    (hts : Braced (above ++ .block :: inside) (kinds ts) final) :
    ClosedBefore above inside ts rest := by
  induction ts generalizing opened above with
  | nil => cases h
  | cons t ts ih =>
    cases hts with
    | cons hfits hts =>
      -- a token of the body, behind which as many blocks are open as the search counts
      have further : ∀ above' : List Brace,
          t.kind.bracesAfter (above ++ .block :: inside) = above' ++ .block :: inside →
          closeBlock (above'.count .block) ts = (true, rest) →
          ClosedBefore above inside (t :: ts) rest :=
        fun above' hafter h => .cons hfits hafter (ih above' h rfl (hafter ▸ hts))
      rw [closeBlock] at h
      by_cases hopen : t.kind = .punct .leftBrace
      · rw [if_pos hopen] at h
        refine further (.block :: above) (by rw [hopen]; rfl) ?_
        rwa [List.count_cons_self, hopened]
      rw [if_neg hopen] at h
      by_cases hclose : t.kind = .punct .rightBrace
      · rw [if_pos hclose] at h
        rw [hclose] at hfits
        cases above with
        | nil =>
          rw [List.count_nil] at hopened
          rw [if_pos hopened.symm] at h
          obtain rfl : ts = rest := congrArg Prod.snd h
          exact .here hclose
        | cons brace above =>
          obtain rfl : brace = .block := by
            cases brace with
            | block => rfl
            | substitution => exact absurd rfl hfits
          rw [List.count_cons_self] at hopened
          rw [if_neg (by omega), ← hopened, Nat.add_sub_cancel] at h
          exact further above (by rw [hclose]; rfl) h
      · rw [if_neg hclose] at h
        obtain ⟨above', hafter, hcount⟩ := hfits.within hopen hclose
        split at h
        · cases congrArg Prod.fst h
        · exact further above' hafter (by rwa [hcount, hopened])

/-- A block is passed over from its opening brace if the search behind it finds its end. -/
theorem skipBlock_closes {brace : Token} {after : List Token} {d : Nat} {s : Stream}
    (hbrace : brace.kind = .punct .leftBrace)
    (h : Rule.skipBlock ⟨brace :: after, d⟩ = .ok () s) :
    closeBlock 0 after = (true, s.rest) := by
  have hskip : Triple (fun _ _ => True) (· = brace :: after) Rule.skipBlock
      fun _ rest => closeBlock 0 after = (true, rest) := by
    refine .skipBlock ?_ (fun _ _ => trivial) fun _ _ _ _ _ => trivial
    rintro _ rest rfl - hclosed
    rwa [dropToken_cons after (by rw [hbrace]; rfl)] at hclosed
  have := hskip ⟨brace :: after, d⟩ rfl
  rwa [h] at this

/-! ### Agreement -/

/-- A `}` means the same to all who read it.  The tokens of a text can be scanned for
braces, and no `}` of its own stands in a substitution; a body that is passed over from a
`{` ends with the `}` that closes this very brace, which is open at each place in it; and no
expression ends in front of the rest of a template. -/
theorem braces_agree (source : String) :
    (∃ final, scanBraces [] (kinds (tokenize source)) = some final) ∧
    (∀ before brace after d s, tokenize source = before ++ brace :: after →
      brace.kind = .punct .leftBrace → Rule.skipBlock ⟨brace :: after, d⟩ = .ok () s →
      ∃ body closing inside, after = body ++ closing :: s.rest ∧
        closing.kind = .punct .rightBrace ∧
        scanBraces [] (kinds before) = some inside ∧
        (∀ part, part <+: body → ∃ above,
          scanBraces [] (kinds (before ++ brace :: part)) = some (above ++ .block :: inside)) ∧
        scanBraces [] (kinds (before ++ brace :: body)) = some (.block :: inside) ∧
        scanBraces [] (kinds (before ++ brace :: (body ++ [closing]))) = some inside) ∧
    (∀ e s, Parse.expression.run { rest := tokenize source } = (.ok e, s) →
      ∀ text, headKind s.rest ≠ .templateMiddle text ∧ headKind s.rest ≠ .templateTail text) := by
  obtain ⟨final, hfinal⟩ := tokenize_braced source
  refine ⟨⟨final, scanBraces_eq_some.2 hfinal⟩, ?_, ?_⟩
  · intro before brace after d s htokens hbrace hskip
    rw [htokens, kinds_append, kinds_cons, hbrace] at hfinal
    obtain ⟨inside, hbefore, hrest⟩ := hfinal.of_append
    cases hrest with
    | cons hfits hrest =>
      obtain ⟨body, closing, rfl, hclosing, hbody, hparts⟩ :=
        closeBlock_braced [] (skipBlock_closes hbrace hskip) rfl hrest
      have behind : ∀ {us : List Token} {open' : List Brace},
          Braced (.block :: inside) (kinds us) open' →
          scanBraces [] (kinds (before ++ brace :: us)) = some open' := by
        intro us open' hus
        rw [kinds_append, kinds_cons, hbrace]
        exact scanBraces_eq_some.2 (hbefore.append (.cons hfits hus))
      refine ⟨body, closing, inside, rfl, hclosing, scanBraces_eq_some.2 hbefore,
        fun part hpart => ?_, behind hbody, behind ?_⟩
      · obtain ⟨above, habove⟩ := hparts part hpart
        exact ⟨above, behind habove⟩
      · have hpops : Braced (.block :: inside) [.punct .rightBrace] inside := .single nofun
        rw [kinds_append, kinds_cons, hclosing]
        exact hbody.append hpops
  · intro e s hrun text
    obtain ⟨taken, htokens, -, hwritten⟩ := expression_takes.run_ok trivial hrun
    rw [show tokenize source = taken ++ s.rest from htokens, kinds_append] at hfinal
    obtain ⟨between, htaken, hrest⟩ := hfinal.of_append
    -- no substitution is open behind an expression
    obtain rfl : between = [] := hwritten.matched.same_braces (by decide) (by decide) htaken
    cases hs : s.rest with
    | nil => exact ⟨nofun, nofun⟩
    | cons t ts =>
      rw [hs] at hrest
      cases hrest with
      | cons hfits _ =>
        rw [headKind_cons]
        refine ⟨fun hkind => ?_, fun hkind => ?_⟩
        · rw [hkind] at hfits
          exact nomatch hfits
        · rw [hkind] at hfits
          exact nomatch hfits

/-- A body with a template in it, in a substitution of which braces are open. -/
theorem braces_agree_template :
    ∃ before brace after s,
      tokenize "x => \x7b `a$\x7b \x7b y \x7d \x7db` \x7d" = before ++ brace :: after ∧
      brace.kind = .punct .leftBrace ∧ Rule.skipBlock ⟨brace :: after, 0⟩ = .ok () s ∧
      headKind s.rest = .eof ∧
      (∃ body closing inside, after = body ++ closing :: s.rest ∧
        scanBraces [] (kinds (before ++ brace :: (body ++ [closing]))) = some inside) ∧
      ∃ e t, Parse.expression.run
          { rest := tokenize "x => \x7b `a$\x7b \x7b y \x7d \x7db` \x7d" } = (.ok e, t) ∧
        ∀ text, headKind t.rest ≠ .templateMiddle text ∧ headKind t.rest ≠ .templateTail text := by
  generalize hsource : "x => \x7b `a$\x7b \x7b y \x7d \x7db` \x7d" = source
  obtain ⟨-, hbodies, hexpressions⟩ := braces_agree source
  have hbrace : headKind ((tokenize source).drop 2) = .punct .leftBrace := by
    subst hsource
    decide +kernel
  have hskips : (match Rule.skipBlock ⟨(tokenize source).drop 2, 0⟩ with
      | .ok _ s => headKind s.rest == .eof
      | .error _ _ => false) = true := by
    subst hsource
    decide +kernel
  have hreads : (Parse.expression.run { rest := tokenize source }).1.isOk = true := by
    subst hsource
    decide +kernel
  have hsplit := (List.take_append_drop 2 (tokenize source)).symm
  cases hrest : (tokenize source).drop 2 with
  | nil => rw [hrest] at hbrace; exact nomatch hbrace
  | cons brace after =>
    rw [hrest] at hbrace hskips hsplit
    split at hskips
    · next s hskip =>
      obtain ⟨body, closing, inside, hafter, -, -, -, -, hbehind⟩ :=
        hbodies _ brace after 0 s hsplit hbrace hskip
      refine ⟨_, brace, after, s, hsplit, hbrace, hskip, beq_iff_eq.1 hskips,
        ⟨body, closing, inside, hafter, hbehind⟩, ?_⟩
      cases hrun : Parse.expression.run { rest := tokenize source } with
      | mk result t =>
        rw [hrun] at hreads
        cases result with
        | error error => exact nomatch hreads
        | ok e => exact ⟨e, t, rfl, hexpressions e t hrun⟩
    · exact nomatch hskips

end TemplateVars
