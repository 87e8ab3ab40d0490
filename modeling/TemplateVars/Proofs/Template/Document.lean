/-
Templates written as documents and read back.

* `Document.field?_ofField`, `Document.page?_ofPage`, `Document.template?_ofTemplate` — a
  field, a page and a template are what their documents hold;
* `ofDocument_toDocument` — writing a template and reading the text gives the template
  again, and so does reading any document, writing it and reading it once more.

Design notes: the fields of a page stand in the order of their keys, so a template has one
way to be written.  A mark that is not set is left out, and one that is left out is not set.
-/
import TemplateVars.Proofs.Json.Spelling
import TemplateVars.Template.Document

namespace TemplateVars

namespace Document

/-! ### Lists of parts -/

/-- Items that are read back one by one are read back together. -/
theorem mapM_map {α β : Type} {write : α → β} {read : β → Option α} {as : List α}
    (h : ∀ a ∈ as, read (write a) = some a) : (as.map write).mapM read = some as := by
  induction as with
  | nil => rfl
  | cons a as ih =>
    obtain ⟨ha, has⟩ := List.forall_mem_cons.1 h
    rw [List.map_cons, List.mapM_cons, ha, ih has]
    rfl

/-! ### Documents of templates -/

theorem lastValue?_append (key : String) (ms ns : List (String × Json)) :
    Json.lastValue? key (ms ++ ns) = (Json.lastValue? key ns).or (Json.lastValue? key ms) := by
  unfold Json.lastValue?
  rw [List.reverse_append, List.find?_append]
  cases ns.reverse.find? (·.1 == key) <;> rfl

theorem lastValue?_memberOf {α : Type} (key other : String) (toJson : α → Json)
    (value : Option α) : Json.lastValue? key (memberOf other toJson value) =
      if other = key then value.map toJson else none := by
  cases value <;> by_cases h : other = key <;> simp [Json.lastValue?, memberOf, h]

theorem field?_ofField (f : Field) : field? (ofField f) = some f := by
  obtain ⟨type, name, content, readOnly⟩ := f
  have htype : Json.lastValue? "type" [("type", .string type)] = some (.string type) := by
    simp [Json.lastValue?]
  have hothers : ∀ key, key ≠ "type" → Json.lastValue? key [("type", .string type)] = none := by
    intro key hkey
    simp [Json.lastValue?, hkey.symm]
  simp only [ofField, field?, lastValue?_append, lastValue?_memberOf, htype,
    hothers "name" (by decide), hothers "content" (by decide), hothers "readOnly" (by decide)]
  cases name <;> cases content <;> cases readOnly <;> rfl

theorem page?_ofPage (p : Page) : page? (ofPage p) = some p := by
  cases p with
  | list fields =>
    rw [ofPage, page?, mapM_map fun f _ => field?_ofField f]
    rfl
  | keyed fields =>
    let members := fields.toList.map fun m => (m.1, ofField m.2)
    have hkeys : members.map (·.1) = fields.toList.map (·.1) := by
      simp [members, Function.comp_def]
    have hmembers : (Keyed.ofList members).toList = members :=
      Keyed.toList_ofList (hkeys ▸ fields.ascending)
    have hread : members.mapM (Keyed.mapMember? field?) = some fields.toList :=
      mapM_map fun m _ => by rw [Keyed.mapMember?, field?_ofField, Option.map_some]
    have hfields : (Keyed.ofList members).mapM? field? = some fields := by
      refine Option.map_injective (fun _ _ => Keyed.toList_injective) ?_
      rw [Keyed.toList_mapM?, hmembers, hread, Option.map_some]
    rw [ofPage, page?, hfields, Option.map_some]

theorem template?_ofTemplate (t : Template) : template? (ofTemplate t) = some t := by
  have hvalue : Json.lastValue? "schemas" [("schemas", .array (t.pages.map ofPage))] =
      some (.array (t.pages.map ofPage)) := by
    simp [Json.lastValue?]
  rw [ofTemplate, template?, hvalue]
  simp only [mapM_map fun p _ => page?_ofPage p]
  rfl

/-! ### Texts of templates -/

open Json (Readable)

theorem readable_memberOf {α : Type} {n : Nat} {key : String} {toJson : α → Json}
    (h : ∀ a, Readable n (toJson a)) (value : Option α) :
    ∀ m ∈ memberOf key toJson value, Readable n m.2 := by
  cases value with
  | none => exact nofun
  | some a => exact List.forall_mem_singleton.2 (h a)

theorem readable_ofField (n : Nat) (f : Field) : Readable (n + 1) (ofField f) := by
  refine .object ?_
  simp only [List.forall_mem_append]
  refine ⟨⟨⟨?_, ?_⟩, ?_⟩, ?_⟩
  · exact List.forall_mem_singleton.2 (.string f.type)
  · exact readable_memberOf .string f.name
  · exact readable_memberOf .string f.content
  · exact readable_memberOf .bool f.readOnly

theorem readable_ofPage (n : Nat) (p : Page) : Readable (n + 2) (ofPage p) := by
  cases p with
  | list fields => exact .array (List.forall_mem_map.2 fun f _ => readable_ofField n f)
  | keyed fields => exact .object (List.forall_mem_map.2 fun m _ => readable_ofField n m.2)

theorem readable_ofTemplate (n : Nat) (t : Template) : Readable (n + 4) (ofTemplate t) := by
  refine .object (List.forall_mem_singleton.2 (.array ?_))
  exact List.forall_mem_map.2 fun p _ => readable_ofPage n p

end Document

namespace Template

theorem ofDocument_eq_ok {source : String} {t : Template} :
    ofDocument source = .ok t ↔
      ∃ json, Json.read? source = some json ∧ Document.template? json = some t := by
  unfold ofDocument
  cases Json.read? source with
  | none => simp
  | some json => cases h : Document.template? json <;> simp [h]

theorem ofDocument_of_toDocument (t : Template) : ofDocument t.toDocument = .ok t :=
  ofDocument_eq_ok.2 ⟨Document.ofTemplate t,
    Json.read?_compact (Document.readable_ofTemplate 123 t), Document.template?_ofTemplate t⟩

end Template

/-- The document of a template is read as the template, with each page in its form.  So
writing down a template that has been read and reading it changes nothing, and writing it
again gives the same text. -/
theorem ofDocument_toDocument :
    (∀ t : Template, Template.ofDocument t.toDocument = .ok t) ∧
    ∀ (source : String) (t : Template), Template.ofDocument source = .ok t →
      Template.ofDocument t.toDocument = .ok t ∧
        (Template.ofDocument t.toDocument).map Template.toDocument = .ok t.toDocument := by
  refine ⟨Template.ofDocument_of_toDocument, fun source t _ => ?_⟩
  have hread := Template.ofDocument_of_toDocument t
  refine ⟨hread, ?_⟩
  rw [hread]
  rfl

/-- A template with a page of each form, and with characters that are escaped. -/
theorem ofDocument_toDocument_keyed :
    let t : Template := { pages := [
      .keyed (.ofList [("größe", { type := "", name := some "", readOnly := some false }),
        ("\x22total\x22", { type := "text", content := some "a\n\t\x01\\b" })]),
      .list [], .keyed .empty] }
    Template.ofDocument t.toDocument = .ok t ∧
      (Template.ofDocument t.toDocument).map Template.toDocument = .ok t.toDocument := by
  intro t
  exact ofDocument_toDocument.2 t.toDocument t (ofDocument_toDocument.1 t)

end TemplateVars
