/-
Reports written as documents and read back.

* `Report.ofJson?` — the report that a document holds;
* `Report.ofJson?_toJson` — the document of a report holds the report;
* `read_document` — the text of a report is one document and a line break, and reading it
  gives the report again, so that no two reports have the same text.

Design notes: a count is a machine word, and the reader is sure to take such numbers.  All
names and texts are read back as they are, whatever characters they hold.
-/
import TemplateVars.Proofs.Json.Pretty
import TemplateVars.Proofs.Template.Document
import TemplateVars.Template.Report

namespace TemplateVars

open Text

/-- Whether each count fits a machine word of 64 bits. -/
def Statistics.Fits (s : Statistics) : Prop :=
  s.fields < Nat.pow 2 64 ∧ s.expressions < Nat.pow 2 64 ∧ s.failed < Nat.pow 2 64

namespace Report

/-! ### Reading -/

/-- The value of a key, as it is read. -/
def member? {α : Type} (read : Json → Option α) (key : String)
    (members : List (String × Json)) : Option α :=
  (Json.lastValue? key members).bind read

def text? : Json → Option String
  | .string value => some value
  | _ => none

/-- A number that is nothing but digits. -/
def count? : Json → Option Nat
  | .number literal =>
    if literal.toList.all (isDigitOf 10) then some (natOfDigits 10 literal.toList) else none
  | _ => none

def diagnostic? : Json → Option Diagnostic
  | .object members => do
    let label ← member? text? "schemaName" members
    let expression ← member? text? "expression" members
    let error ← member? text? "error" members
    some { label, expression, error }
  | _ => none

/-- The diagnostics under their key; without it there are none. -/
def diagnostics? (members : List (String × Json)) : Option (List Diagnostic) :=
  match Json.lastValue? "diagnostics" members with
  | none => some []
  | some (.array items) => items.mapM diagnostic?
  | some _ => none

def statistics? : Json → Option Statistics
  | .object members => do
    let fields ← member? count? "schemaCount" members
    let expressions ← member? count? "expressionCount" members
    let failed ← member? count? "failedExpressions" members
    some { fields, expressions, failed }
  | _ => none

/-- The report that a document holds. -/
def ofJson? : Json → Option Report
  | .object members => do
    let required ← member? Json.stringList? "required" members
    let available ← member? Json.stringList? "available" members
    let provided ← member? Json.stringList? "provided" members
    let missing ← member? Json.stringList? "missing" members
    let diagnostics ← diagnostics? members
    let statistics ← member? statistics? "stats" members
    some { required, available, provided, missing, diagnostics, statistics }
  | _ => none

/-! ### Reading what is written -/

theorem stringList?_strings (values : List String) :
    Json.stringList? (Json.strings values) = some values :=
  Document.mapM_map fun _ _ => rfl

theorem isDigitOf_digitChar : ∀ k < 10, isDigitOf 10 k.digitChar = true := by
  decide

theorem all_isDigitOf_toDigits (n : Nat) : (Nat.toDigits 10 n).all (isDigitOf 10) = true := by
  induction n using Nat.base_induction 10 (by decide) with
  | single k hk => simp [Nat.toDigits_of_lt_base hk, isDigitOf_digitChar k hk]
  | digit n k hk hn ih =>
    rw [Json.toDigits_snoc hk hn, List.all_append, ih]
    simp [isDigitOf_digitChar k hk]

theorem count?_nat (n : Nat) : count? (Json.nat n) = some n := by
  rw [Json.nat, count?, Nat.toList_repr, if_pos (all_isDigitOf_toDigits n),
    Json.natOfDigits_toDigits]

theorem diagnostic?_diagnosticJson (d : Diagnostic) : diagnostic? (diagnosticJson d) = some d := by
  simp [diagnostic?, diagnosticJson, member?, Json.lastValue?, text?]

theorem statistics?_statisticsJson (s : Statistics) :
    statistics? (statisticsJson s) = some s := by
  simp [statistics?, statisticsJson, member?, Json.lastValue?, count?_nat]

theorem ofJson?_toJson (r : Report) : ofJson? r.toJson = some r := by
  obtain ⟨required, available, provided, missing, diagnostics, statistics⟩ := r
  have hdiagnostics : (diagnostics.map diagnosticJson).mapM diagnostic? = some diagnostics :=
    Document.mapM_map fun d _ => diagnostic?_diagnosticJson d
  -- the key of the diagnostics is there unless there are none
  cases diagnostics with
  | nil =>
    simp [ofJson?, toJson, diagnosticsMember, diagnostics?, member?, Json.lastValue?,
      stringList?_strings, statistics?_statisticsJson]
  | cons d ds =>
    simp [ofJson?, toJson, diagnosticsMember, diagnostics?, member?, Json.lastValue?,
      stringList?_strings, statistics?_statisticsJson, -List.map_cons, hdiagnostics]

/-! ### Texts of reports -/

open Json (Readable)

theorem readable_strings (n : Nat) (values : List String) :
    Readable (n + 1) (Json.strings values) :=
  .array (List.forall_mem_map.2 fun value _ => .string value)

theorem readable_diagnosticJson (n : Nat) (d : Diagnostic) :
    Readable (n + 1) (diagnosticJson d) := by
  refine .object ?_
  simp only [List.forall_mem_cons]
  exact ⟨.string d.label, .string d.expression, .string d.error, nofun⟩

theorem readable_statisticsJson (n : Nat) {s : Statistics} (h : s.Fits) :
    Readable (n + 1) (statisticsJson s) := by
  obtain ⟨hfields, hexpressions, hfailed⟩ := h
  refine .object ?_
  simp only [List.forall_mem_cons]
  exact ⟨.number (Json.isNumber_repr hfields), .number (Json.isNumber_repr hexpressions),
    .number (Json.isNumber_repr hfailed), nofun⟩

theorem readable_diagnosticsMember (n : Nat) (ds : List Diagnostic) :
    ∀ m ∈ diagnosticsMember ds, Readable (n + 2) m.2 := by
  cases ds with
  | nil => exact nofun
  | cons d ds =>
    refine List.forall_mem_singleton.2 (.array ?_)
    exact List.forall_mem_map.2 fun d _ => readable_diagnosticJson n d

theorem readable_toJson (n : Nat) {r : Report} (h : r.statistics.Fits) :
    Readable (n + 3) r.toJson := by
  refine .object ?_
  simp only [List.forall_mem_append, List.forall_mem_cons]
  refine ⟨⟨⟨?_, ?_, ?_, ?_, nofun⟩, readable_diagnosticsMember n _⟩, ?_, nofun⟩
  · exact readable_strings _ r.required
  · exact readable_strings _ r.available
  · exact readable_strings _ r.provided
  · exact readable_strings _ r.missing
  · exact readable_statisticsJson _ h

theorem read?_document {r : Report} (h : r.statistics.Fits) :
    Json.read? r.document = some r.toJson :=
  Json.read?_pretty (readable_toJson 124 h) 0 (Json.isGap_of_all (s := "\n") rfl)

/-- The keys of the document of a report. -/
theorem keys_toJson (r : Report) : ∃ members, r.toJson = .object members ∧
    members.map (·.1) = ["required", "available", "provided", "missing"] ++
      (if r.diagnostics = [] then [] else ["diagnostics"]) ++ ["stats"] := by
  refine ⟨_, rfl, ?_⟩
  cases r.diagnostics <;> rfl

end Report

/-- The text of a report is a document and a line break.  Reading it strictly gives back the
lists of the report in order, its diagnostics and its counts; the document has the key of the
diagnostics exactly when there are any.  So different reports have different texts. -/
theorem read_document (r : Report) (h : r.statistics.Fits) :
    (∃ text members, r.document = text ++ "\n" ∧ Json.read? text = some (.object members) ∧
      Json.read? r.document = some (.object members) ∧
      Report.ofJson? (.object members) = some r ∧
      members.map (·.1) = ["required", "available", "provided", "missing"] ++
        (if r.diagnostics = [] then [] else ["diagnostics"]) ++ ["stats"]) ∧
    ∀ other : Report, other.statistics.Fits → other.document = r.document → other = r := by
  constructor
  · obtain ⟨members, hmembers, hkeys⟩ := r.keys_toJson
    have htext : Json.read? (r.toJson.pretty 0) = some r.toJson := by
      have hread := Json.read?_pretty (Report.readable_toJson 124 h) 0 Json.isGap_empty
      rwa [String.append_empty] at hread
    refine ⟨r.toJson.pretty 0, members, rfl, ?_, ?_, ?_, hkeys⟩
    · rw [htext, hmembers]
    · rw [Report.read?_document h, hmembers]
    · rw [← hmembers, Report.ofJson?_toJson]
  · intro other hother hdocument
    have hjson : some other.toJson = some r.toJson := by
      rw [← Report.read?_document h, ← Report.read?_document hother, hdocument]
    have hreport : some other = some r := by
      rw [← Report.ofJson?_toJson, ← Report.ofJson?_toJson, Option.some.inj hjson]
    exact Option.some.inj hreport

/-- Names and texts with marks, a line break and a control character, and the largest count. -/
theorem read_document_quoted :
    let r : Report := {
      required := ["größe", "\x22", ""], available := [], provided := [], missing := ["\\"],
      diagnostics := [⟨"a\nb\x01", "\\u0041\x22]", "\x7f\u2028!"⟩]
      statistics := { fields := 18446744073709551615, expressions := 1, failed := 1 } }
    r.statistics.Fits ∧ (Json.read? r.document).bind Report.ofJson? = some r := by
  intro r
  have hfits : r.statistics.Fits := ⟨by decide, by decide, by decide⟩
  obtain ⟨⟨text, members, -, -, hread, hreport, -⟩, -⟩ := read_document r hfits
  refine ⟨hfits, ?_⟩
  rw [hread, Option.bind_some, hreport]

end TemplateVars
