/-
The lexer and the grammar agree about the slash.

The lexer looks at one token, and at whether `.` or `?.` stands before that, to
tell a slash that divides from one that opens a regular expression.  The main
result is `expression_slash`:

* the token behind an expression is never a regular expression;
* a slash is `unexpected` only behind `++` or `--`.

Design notes: the second part is about messages.  All other messages are longer
than those about a slash (`SyntaxError.message_length`), so that the message
determines the cause.
-/
import TemplateVars.Proofs.Grammar.Operands

namespace TemplateVars

open Place

/-! ### Messages about a slash -/

theorem lt_length_append {n : Nat} {s t : String} (h : n < s.length ∨ n < t.length) :
    n < (s ++ t).length := by
  rw [String.length_append]
  omega

theorem LexError.message_length (error : LexError) : 13 < error.message.length := by
  cases error with
  | badNumber text => exact lt_length_append (.inl (lt_length_append (.inl (by decide))))
  | unexpectedCharacter c => exact lt_length_append (.inl (lt_length_append (.inl (by decide))))
  | _ => decide

/-- Only the message that no expression starts with a token may be short. -/
theorem SyntaxError.message_length {cause : SyntaxError} (h : ∀ k, cause ≠ .unexpected k) :
    13 < cause.message.length := by
  cases cause with
  | lexical error => exact error.message_length
  | unexpected got => exact absurd rfl (h got)
  | expected wanted got =>
    have hwanted : 13 < wanted.message.length := by cases wanted <;> decide
    exact lt_length_append (.inl (lt_length_append (.inl hwanted)))
  | trailing got => exact lt_length_append (.inr (by decide))
  | memberName got => exact lt_length_append (.inl (by decide))
  | parameter got => exact lt_length_append (.inr (by decide))
  | propertyName got => exact lt_length_append (.inr (by decide))
  | templateStart got => exact lt_length_append (.inl (by decide))
  | _ => decide

theorem Keyword.spelling_ne_slash (word : Keyword) :
    ¬(word.spelling = "/" ∨ word.spelling = "/=") := by
  cases word <;> simp [spelling]

theorem Punctuator.eq_slash {m : Punctuator} (h : m.spelling = "/" ∨ m.spelling = "/=") :
    m = .slash := by
  cases m <;> first | rfl | simp [spelling] at h

theorem AssignOperator.eq_divide {op : AssignOperator}
    (h : op.spelling = "/" ∨ op.spelling = "/=") : op = .divide := by
  cases op <;> first | rfl | simp [spelling] at h

/-- Tokens with a text of their own are named by more than that text. -/
theorem display_slash {k : TokenKind} (h : k.display = "/" ∨ k.display = "/=") :
    k = .punct .slash ∨ k = .assign .divide := by
  have hshort : ¬2 < k.display.length := by
    rcases h with h | h <;> rw [h] <;> decide
  -- what quotes a text around it adds more than a slash is long
  have between : ∀ {opening inside closing : String}, 2 < opening.length →
      2 < (opening ++ inside ++ closing).length :=
    fun h => lt_length_append (.inl (lt_length_append (.inl h)))
  cases k with
  | keyword word => exact absurd h word.spelling_ne_slash
  | punct m => exact .inl (congrArg _ (Punctuator.eq_slash h))
  | assign op => exact .inr (congrArg _ (AssignOperator.eq_divide h))
  | regex pattern flags =>
    have hstart : 2 < ("regexp(/" ++ pattern).length := lt_length_append (.inl (by decide))
    have hlong : 2 < ("regexp(/" ++ pattern ++ "/" ++ flags ++ ")").length :=
      lt_length_append (.inl (lt_length_append (.inl (lt_length_append (.inl hstart)))))
    exact absurd hlong hshort
  | reserved word => exact absurd (between (by decide)) hshort
  | identifier name => exact absurd (between (by decide)) hshort
  | number value => exact absurd (between (by decide)) hshort
  | bigint digits => exact absurd (between (by decide)) hshort
  | string value => exact absurd (between (by decide)) hshort
  | invalid error => exact absurd (between (by decide)) hshort
  | template cooked => exact absurd (by decide : 2 < "template".length) hshort
  | templateHead cooked => exact absurd (by decide : 2 < "template head".length) hshort
  | templateMiddle cooked => exact absurd (by decide : 2 < "'\x7d' in template".length) hshort
  | templateTail cooked => exact absurd (by decide : 2 < "template tail".length) hshort
  | eof => exact absurd (by decide : 2 < "end of input".length) hshort

theorem unexpected_of_message {cause : SyntaxError}
    (h : cause.message = "Unexpected /" ∨ cause.message = "Unexpected /=") :
    cause = .unexpected (.punct .slash) ∨ cause = .unexpected (.assign .divide) := by
  have hshort : ¬13 < cause.message.length := by
    rcases h with h | h <;> rw [h] <;> decide
  by_cases hcause : ∃ got, cause = .unexpected got
  · obtain ⟨got, rfl⟩ := hcause
    have hdisplay : got.display = "/" ∨ got.display = "/=" :=
      h.imp (String.append_right_inj "Unexpected ").1 (String.append_right_inj "Unexpected ").1
    rcases display_slash hdisplay with rfl | rfl
    · exact .inl rfl
    · exact .inr rfl
  · exact absurd (SyntaxError.message_length fun got hgot => hcause ⟨got, hgot⟩) hshort

/-! ### Expressions -/

theorem drop_past (before ts : List Token) : (before.reverse ++ ts).drop before.length = ts := by
  rw [← List.length_reverse, List.drop_left]

theorem getElem?_past (before : List Token) (t : Token) (ts : List Token) :
    (before.reverse ++ t :: ts)[before.length]? = some t := by
  simp

/-- Reading starts where an operand may begin. -/
theorem past_start (source : String) : Past (tokenize source) Begins (tokenize source) := by
  refine ⟨tokenize_ended source, [], rfl, ?_⟩
  exact ⟨rfl, .inl rfl⟩

/-- No regular expression stands behind an expression, and where no expression
starts with a slash, the token before is `++` or `--`. -/
theorem expression_slash (source : String) :
    (∀ e s, Parse.expression.run { rest := tokenize source } = (.ok e, s) →
      ∃ k t, s.rest = (tokenize source).drop k ∧ (tokenize source)[k]? = some t ∧
        ∀ pattern flags, t.kind ≠ .regex pattern flags) ∧
    ∀ error s, Parse.expression.run { rest := tokenize source } = (.error error, s) →
      error.cause.message = "Unexpected /" ∨ error.cause.message = "Unexpected /=" →
      ∃ i t u, s.rest = (tokenize source).drop (i + 1) ∧
        (tokenize source)[i]? = some t ∧ (tokenize source)[i + 1]? = some u ∧
        error.line = u.start.line ∧ error.column = u.start.column ∧
        (t.kind = .punct .plusPlus ∨ t.kind = .punct .minusMinus) := by
  have hslash := tokenize_slashesRight source
  have hmoves := expression_moves hslash
  refine ⟨fun e s h => ?_, fun error s h hmessage => ?_⟩
  · have hplace := (hmoves.run_ok (past_start source) h).slashRight hslash
    obtain ⟨hended, before, hall, hends, hright⟩ := hplace
    cases hrest : s.rest with
    | nil => exact (hrest ▸ hended).elim
    | cons t rest =>
      rw [hrest] at hall hright
      refine ⟨before.length, t, by rw [hall, drop_past], by rw [hall, getElem?_past], ?_⟩
      -- a regular expression stands only where a slash opens one
      intro pattern flags hregex
      rw [headKind_cons, hregex] at hright
      exact nomatch hright.symm.trans hends
  · obtain ⟨⟨hended, before, hall, hafter⟩, hline, hcolumn⟩ :=
      hmoves.run_error (past_start source) h
    -- the message tells the cause, and the cause tells what stands before it
    have hupdate := hafter (unexpected_of_message hmessage)
    cases hrest : s.rest with
    | nil => exact (hrest ▸ hended).elim
    | cons u rest =>
      rw [hrest] at hall hline hcolumn
      cases before with
      | nil => exact hupdate.elim
      | cons t before =>
        refine ⟨before.length, t, u, ?_, ?_, ?_, hline, hcolumn, hupdate⟩
        · rw [hall]
          exact (drop_past (t :: before) (u :: rest)).symm
        · rw [hall, List.reverse_cons, List.append_assoc]
          exact getElem?_past before t (u :: rest)
        · rw [hall]
          exact getElem?_past (t :: before) u rest

/-- A slash behind `++` is not expected; in `a/b` it divides. -/
theorem expression_slash_update :
    (∃ error s, Parse.expression.run { rest := tokenize "++/" } = (.error error, s) ∧
      ∃ i t u, s.rest = (tokenize "++/").drop (i + 1) ∧
        (tokenize "++/")[i]? = some t ∧ (tokenize "++/")[i + 1]? = some u ∧
        error.line = u.start.line ∧ error.column = u.start.column ∧
        (t.kind = .punct .plusPlus ∨ t.kind = .punct .minusMinus)) ∧
    ∃ e s, Parse.expression.run { rest := tokenize "a/b" } = (.ok e, s) ∧
      ∃ k t, s.rest = (tokenize "a/b").drop k ∧ (tokenize "a/b")[k]? = some t ∧
        ∀ pattern flags, t.kind ≠ .regex pattern flags := by
  have hfails : (match Parse.expression.run { rest := tokenize "++/" } with
      | (.error error, _) => decide (error.cause = .unexpected (.punct .slash))
      | (.ok _, _) => false) = true := by decide +kernel
  have hreads : (Parse.expression.run { rest := tokenize "a/b" }).1.isOk = true := by
    decide +kernel
  constructor
  · split at hfails
    · next error s hrun =>
      refine ⟨error, s, hrun, (expression_slash "++/").2 error s hrun (.inl ?_)⟩
      rw [of_decide_eq_true hfails]
      decide
    · exact nomatch hfails
  · cases hrun : Parse.expression.run { rest := tokenize "a/b" } with
    | mk result s =>
      rw [hrun] at hreads
      cases result with
      | error error => exact nomatch hreads
      | ok e => exact ⟨e, s, rfl, (expression_slash "a/b").1 e s hrun⟩

end TemplateVars
