/-
Other spellings of a document with the same fields.

* `FieldStep`, `PageStep`, `DocumentStep` — a field, a page or a document written in another
  way at one place;
* `field?_step`, `pageFields?_step`, `fields?_step` — the fields that are read stay the same;
* `ofDocument_respelled` — a document from which a template is read can be written in any of
  these ways, any number of times, and gives a template with the same fields.

Design notes: each step can be taken back.  A `null` may only be added for a key of
`optionalKeys`; one for the type of a field or for the pages of a document is an error.
Documents with a key written twice have no place here, as only one of the two values counts.
-/
import Mathlib.Data.List.Forall2
import Mathlib.Logic.Relation
import TemplateVars.Proofs.Template.Document

namespace TemplateVars

/-- Whether no object in a document, however deep, has a key twice. -/
inductive Json.Distinct : Json → Prop where
  | null : Distinct .null
  | bool (b : Bool) : Distinct (.bool b)
  | number (literal : String) : Distinct (.number literal)
  | string (s : String) : Distinct (.string s)
  | array {vs : List Json} (h : ∀ v ∈ vs, Distinct v) : Distinct (.array vs)
  | object {ms : List (String × Json)} (hkeys : (ms.map (·.1)).Nodup)
      (h : ∀ m ∈ ms, Distinct m.2) : Distinct (.object ms)

namespace Json.Distinct

variable {ms : List (String × Json)} {vs : List Json}

theorem array_iff : Distinct (.array vs) ↔ ∀ v ∈ vs, Distinct v := by
  refine ⟨fun h => ?_, .array⟩
  cases h with
  | array h => exact h

theorem object_iff :
    Distinct (.object ms) ↔ (ms.map (·.1)).Nodup ∧ ∀ m ∈ ms, Distinct m.2 := by
  refine ⟨fun h => ?_, fun h => .object h.1 h.2⟩
  cases h with
  | object hkeys h => exact ⟨hkeys, h⟩

theorem keys (h : Distinct (.object ms)) : (ms.map (·.1)).Nodup := (object_iff.1 h).1

theorem value (h : Distinct (.object ms)) {m : String × Json} (hm : m ∈ ms) : m.2.Distinct :=
  (object_iff.1 h).2 m hm

theorem item (h : Distinct (.array vs)) {v : Json} (hv : v ∈ vs) : v.Distinct :=
  array_iff.1 h v hv

end Json.Distinct

namespace Document

/-! ### Values of keys -/

theorem lastValue?_cons (key : String) (m : String × Json) (ms : List (String × Json)) :
    Json.lastValue? key (m :: ms) =
      (Json.lastValue? key ms).or (if m.1 = key then some m.2 else none) := by
  rw [← List.singleton_append, lastValue?_append]
  by_cases h : m.1 = key <;> simp [Json.lastValue?, h]

theorem lastValue?_eq_none {key : String} {ms : List (String × Json)} :
    Json.lastValue? key ms = none ↔ key ∉ ms.map (·.1) := by
  simp only [Json.lastValue?, Option.map_eq_none_iff, List.find?_eq_none, List.mem_reverse,
    beq_iff_eq, List.mem_map, not_exists, not_and]

/-- Without duplicates, the value of a key is the one written behind it. -/
theorem lastValue?_eq_some {key : String} {value : Json} {ms : List (String × Json)}
    (h : (ms.map (·.1)).Nodup) : Json.lastValue? key ms = some value ↔ (key, value) ∈ ms := by
  induction ms with
  | nil => simp [Json.lastValue?]
  | cons m ms ih =>
    obtain ⟨hm, hms⟩ := List.nodup_cons.1 h
    rw [lastValue?_cons, List.mem_cons, ← ih hms]
    by_cases hkey : m.1 = key
    · have hnone : Json.lastValue? key ms = none := lastValue?_eq_none.2 (hkey ▸ hm)
      rw [if_pos hkey, hnone, Option.none_or, Option.some_inj]
      simp [Prod.ext_iff, hkey, eq_comm]
    · rw [if_neg hkey, Option.or_none]
      simp [Prod.ext_iff, Ne.symm hkey]

theorem lastValue?_perm {ms ns : List (String × Json)} (h : ms.Perm ns)
    (hms : (ms.map (·.1)).Nodup) (key : String) :
    Json.lastValue? key ms = Json.lastValue? key ns := by
  have hns : (ns.map (·.1)).Nodup := (h.map _).nodup hms
  refine Option.ext fun value => ?_
  rw [lastValue?_eq_some hms, lastValue?_eq_some hns, h.mem_iff]

theorem lastValue?_absent {ms ns : List (String × Json)} {key : String} {value : Json}
    (h : ns.Perm ((key, value) :: ms)) (hns : (ns.map (·.1)).Nodup) :
    Json.lastValue? key ms = none := by
  have hcons : (((key, value) :: ms).map (·.1)).Nodup := (h.map _).nodup hns
  exact lastValue?_eq_none.2 (List.nodup_cons.1 hcons).1

/-- One more member gives its key a value and leaves the others alone. -/
theorem lastValue?_added {ms ns : List (String × Json)} {key : String} {value : Json}
    (h : ns.Perm ((key, value) :: ms)) (hns : (ns.map (·.1)).Nodup) (other : String) :
    Json.lastValue? other ns = if key = other then some value else Json.lastValue? other ms := by
  rw [lastValue?_perm h hns, lastValue?_cons]
  split
  · next heq => rw [← heq, lastValue?_absent h hns, Option.none_or]
  · rw [Option.or_none]

theorem lastValue?_filter {key other : String} (h : key ≠ other) (ms : List (String × Json)) :
    Json.lastValue? key (ms.filter (·.1 ≠ other)) = Json.lastValue? key ms := by
  induction ms with
  | nil => rfl
  | cons m ms ih =>
    rw [lastValue?_cons, List.filter_cons]
    split
    · rw [lastValue?_cons, ih]
    · next hm =>
      have hne : m.1 ≠ key := by
        rintro rfl
        simp [h] at hm
      rw [ih, if_neg hne, Option.or_none]

/-! ### One step -/

/-- The keys of a field that may be absent or `null`. -/
def optionalKeys : List String := ["name", "content", "readOnly"]

/-- Whether a place of an array stands for the value of a key: it holds the value, or, for an
absent key, is left out or holds what counts as absent. -/
def Placed (value place : Option Json) (absent : Json) : Prop :=
  place = value ∨ value = none ∧ place = some absent

/-- Whether an array has the values of the keys of a field, in their order. -/
structure ArrayOf (ms : List (String × Json)) (items : List Json) : Prop where
  short : items.length ≤ 4
  type : Placed (Json.lastValue? "type" ms) items[0]? (.string "")
  name : Placed (Json.lastValue? "name" ms) items[1]? .null
  content : Placed (Json.lastValue? "content" ms) items[2]? .null
  readOnly : Placed (Json.lastValue? "readOnly" ms) items[3]? .null

/-- A field written in another way. -/
inductive FieldStep : Json → Json → Prop where
  /-- The members in another order. -/
  | reordered {ms ns : List (String × Json)} (h : ms.Perm ns) : FieldStep (.object ms) (.object ns)
  /-- One more member, somewhere, under a key that fields do not have. -/
  | unknown {ms ns : List (String × Json)} {key : String} {value : Json}
      (hkey : key ∉ "type" :: optionalKeys) (h : ns.Perm ((key, value) :: ms)) :
      FieldStep (.object ms) (.object ns)
  /-- A `null`, somewhere, for an absent key. -/
  | absent {ms ns : List (String × Json)} {key : String} (hkey : key ∈ optionalKeys)
      (h : ns.Perm ((key, .null) :: ms)) : FieldStep (.object ms) (.object ns)
  /-- The values without their keys. -/
  | array {ms : List (String × Json)} {items : List Json} (h : ArrayOf ms items) :
      FieldStep (.object ms) (.array items)

/-- What a field says about its name. -/
def name? : Json → Option Json
  | .object ms => Json.lastValue? "name" ms
  | .array items => items[1]?
  | _ => none

/-- Whether a field has no name. -/
def Unnamed (field : Json) : Prop := ∀ value ∈ name? field, value = .null

/-- A field as it stands in a list, with its key for a name if it has none. -/
inductive Filled (key : String) : Json → Json → Prop where
  | named {field : Json} (h : ¬Unnamed field) : Filled key field field
  | object {ms ns : List (String × Json)} (h : Unnamed (.object ms))
      (hns : ns.Perm (("name", .string key) :: ms.filter (·.1 ≠ "name"))) :
      Filled key (.object ms) (.object ns)
  | array {items : List Json} (h : Unnamed (.array items)) :
      Filled key (.array items)
        (.array (items[0]?.getD (.string "") :: .string key :: items.drop 2))

/-- A page written in another way. -/
inductive PageStep : Json → Json → Prop where
  | field {before behind : List Json} {f g : Json} (h : FieldStep f g) :
      PageStep (.array (before ++ f :: behind)) (.array (before ++ g :: behind))
  | keyedField {before behind : List (String × Json)} {key : String} {f g : Json}
      (h : FieldStep f g) :
      PageStep (.object (before ++ (key, f) :: behind)) (.object (before ++ (key, g) :: behind))
  /-- The keys in another order. -/
  | reordered {ms ns : List (String × Json)} (h : ms.Perm ns) : PageStep (.object ms) (.object ns)
  /-- The fields in the order of their keys, which stand in for names. -/
  | listed {ms sorted : List (String × Json)} {items : List Json} (hsorted : sorted.Perm ms)
      (hkeys : (sorted.map (·.1)).Pairwise (· < ·))
      (h : List.Forall₂ (fun m item => Filled m.1 m.2 item) sorted items) :
      PageStep (.object ms) (.array items)

/-- A document written in another way. -/
inductive DocumentStep : Json → Json → Prop where
  /-- The only page as one of the pages under their key. -/
  | wrapped (items : List Json) :
      DocumentStep (.array items) (.object [("schemas", .array [.array items])])
  | field {before behind : List Json} {f g : Json} (h : FieldStep f g) :
      DocumentStep (.array (before ++ f :: behind)) (.array (before ++ g :: behind))
  | page {before behind : List (String × Json)} {pages others : List Json} {p q : Json}
      (h : PageStep p q) :
      DocumentStep (.object (before ++ ("schemas", .array (pages ++ p :: others)) :: behind))
        (.object (before ++ ("schemas", .array (pages ++ q :: others)) :: behind))
  /-- The members in another order. -/
  | reordered {ms ns : List (String × Json)} (h : ms.Perm ns) :
      DocumentStep (.object ms) (.object ns)
  /-- One more member, somewhere, under a key that documents do not have. -/
  | unknown {ms ns : List (String × Json)} {key : String} {value : Json} (hkey : key ≠ "schemas")
      (h : ns.Perm ((key, value) :: ms)) : DocumentStep (.object ms) (.object ns)

/-! ### Fields -/

/-- A field is known from what is read of its parts. -/
theorem fieldOf?_congr {type type' name name' content content' readOnly readOnly' : Option Json}
    (htype : text? type' = text? type) (hname : optionalText? name' = optionalText? name)
    (hcontent : optionalText? content' = optionalText? content)
    (hreadOnly : optionalBool? readOnly' = optionalBool? readOnly) :
    fieldOf? type' name' content' readOnly' = fieldOf? type name content readOnly := by
  rw [fieldOf?, fieldOf?, htype, hname, hcontent, hreadOnly]

/-- A place that stands for a value is read like the value, if what counts as absent is read
like nothing. -/
theorem read_placed {α : Type} {read : Option Json → α} {value place : Option Json}
    {absent : Json} (hread : read (some absent) = read none) (h : Placed value place absent) :
    read place = read value := by
  rcases h with rfl | ⟨rfl, rfl⟩
  · rfl
  · exact hread

theorem field?_arrayOf {ms : List (String × Json)} {items : List Json} (h : ArrayOf ms items) :
    field? (.array items) = field? (.object ms) := by
  rw [field?, field?, if_pos h.short]
  exact fieldOf?_congr (read_placed rfl h.type) (read_placed rfl h.name)
    (read_placed rfl h.content) (read_placed rfl h.readOnly)

/-- Members that have the same values of the keys of a field, up to `null` for an absent one,
are the same field. -/
theorem field?_object_congr {ms ns : List (String × Json)}
    (htype : Json.lastValue? "type" ns = Json.lastValue? "type" ms)
    (hothers : ∀ key ∈ optionalKeys,
      Placed (Json.lastValue? key ms) (Json.lastValue? key ns) .null) :
    field? (.object ns) = field? (.object ms) := by
  rw [field?, field?]
  refine fieldOf?_congr (by rw [htype]) (read_placed rfl (hothers _ ?_))
    (read_placed rfl (hothers _ ?_)) (read_placed rfl (hothers _ ?_))
  all_goals simp [optionalKeys]

/-- A field written in another way is the same field. -/
theorem field?_step {f g : Json} (h : FieldStep f g) (hf : f.Distinct) (hg : g.Distinct) :
    field? g = field? f := by
  cases h with
  | reordered h =>
    have hvalues := lastValue?_perm h hf.keys
    exact field?_object_congr (hvalues _).symm fun key _ => Or.inl (hvalues key).symm
  | @unknown ms ns key value hkey h =>
    have hvalues : ∀ other ∈ "type" :: optionalKeys,
        Json.lastValue? other ns = Json.lastValue? other ms := by
      intro other hother
      rw [lastValue?_added h hg.keys, if_neg]
      rintro rfl
      exact hkey hother
    exact field?_object_congr (hvalues _ List.mem_cons_self) fun other hother =>
      Or.inl (hvalues other (List.mem_cons_of_mem _ hother))
  | @absent ms ns key hkey h =>
    refine field?_object_congr ?_ fun other _ => ?_
    · rw [lastValue?_added h hg.keys, if_neg]
      rintro rfl
      exact absurd hkey (by decide)
    · rw [lastValue?_added h hg.keys]
      split
      · next heq => exact Or.inr ⟨heq ▸ lastValue?_absent h hg.keys, rfl⟩
      · exact Or.inl rfl
  | array h => exact field?_arrayOf h

/-! ### Names from keys -/

theorem withKey_of_name {f : Field} (h : f.name ≠ none) (key : String) : f.withKey key = f := by
  obtain ⟨type, name, content, readOnly⟩ := f
  cases name with
  | none => exact absurd rfl h
  | some name => rfl

theorem optionalText?_unnamed {value : Option Json} (h : ∀ v ∈ value, v = .null) :
    optionalText? value = some none := by
  cases value with
  | none => rfl
  | some v =>
    rw [h v rfl]
    rfl

theorem unnamed_of_optionalText? {value : Option Json} (h : optionalText? value = some none) :
    ∀ v ∈ value, v = .null := by
  rintro v rfl
  cases v with
  | null => rfl
  | _ => exact nomatch h

/-- The name is all that a field gets from its key. -/
theorem fieldOf?_named {type name content readOnly : Option Json} {key : String}
    (h : ∀ v ∈ name, v = .null) :
    fieldOf? type (some (.string key)) content readOnly =
      (fieldOf? type name content readOnly).map (·.withKey key) := by
  simp only [fieldOf?, optionalText?_unnamed h]
  cases text? type <;> cases optionalText? content <;> cases optionalBool? readOnly <;> rfl

theorem name_of_fieldOf? {type name content readOnly : Option Json} {field : Field}
    (h : fieldOf? type name content readOnly = some field) :
    optionalText? name = some field.name := by
  simp only [fieldOf?, Option.bind_eq_bind, Option.bind_eq_some_iff] at h
  obtain ⟨_, -, _, hname, _, -, _, -, hfield⟩ := h
  cases hfield
  exact hname

/-- A field that is read without a name is written without one. -/
theorem unnamed_of_field? {f : Json} {field : Field} (hread : field? f = some field)
    (hname : field.name = none) : Unnamed f := by
  unfold field? at hread
  split at hread
  · exact unnamed_of_optionalText? (hname ▸ name_of_fieldOf? hread)
  · split at hread
    · exact unnamed_of_optionalText? (hname ▸ name_of_fieldOf? hread)
    · exact nomatch hread
  · exact nomatch hread

theorem length_filled {items : List Json} {key : String} :
    (items[0]?.getD (.string "") :: Json.string key :: items.drop 2).length ≤ 4 ↔
      items.length ≤ 4 := by
  simp only [List.length_cons, List.length_drop]
  omega

theorem text?_getD (value : Option Json) :
    text? (some (value.getD (.string ""))) = text? value := by
  cases value <;> rfl

/-- A field as it stands in a list is the field under its key. -/
theorem field?_filled {key : String} {f g : Json} (h : Filled key f g) (hg : g.Distinct) :
    field? g = (field? f).map (·.withKey key) := by
  cases h with
  | named h =>
    cases hread : field? f with
    | none => rfl
    | some field =>
      have hname : field.name ≠ none := fun hname => h (unnamed_of_field? hread hname)
      rw [Option.map_some, withKey_of_name hname]
  | @object ms ns h hns =>
    have hvalues := lastValue?_added hns hg.keys
    have hothers : ∀ other, other ≠ "name" →
        Json.lastValue? other ns = Json.lastValue? other ms := by
      intro other hother
      rw [hvalues, if_neg hother.symm, lastValue?_filter hother]
    rw [field?, field?, hothers _ (by decide), hothers "content" (by decide),
      hothers "readOnly" (by decide), hvalues, if_pos rfl]
    exact fieldOf?_named h
  | @array items h =>
    have hcontent : (items.drop 2)[0]? = items[2]? := List.getElem?_drop
    have hreadOnly : (items.drop 2)[1]? = items[3]? := List.getElem?_drop
    rw [field?, field?]
    by_cases hlength : items.length ≤ 4
    · rw [if_pos hlength, if_pos (length_filled.2 hlength)]
      refine Eq.trans ?_ (fieldOf?_named h)
      exact fieldOf?_congr (text?_getD _) rfl (congrArg _ hcontent) (congrArg _ hreadOnly)
    · rw [if_neg hlength, if_neg (mt length_filled.1 hlength)]
      rfl

/-! ### Lists of parts -/

theorem mapM_of_forall₂ {α β γ : Type} {R : α → β → Prop} {f : α → Option γ} {g : β → Option γ}
    {as : List α} {bs : List β} (h : List.Forall₂ R as bs)
    (hread : ∀ a, ∀ b ∈ bs, R a b → g b = f a) : bs.mapM g = as.mapM f := by
  induction h with
  | nil => rfl
  | @cons a b as bs hab _ ih =>
    rw [List.mapM_cons, List.mapM_cons, hread a b List.mem_cons_self hab,
      ih fun a b hb => hread a b (List.mem_cons_of_mem _ hb)]

theorem map_mapM {α β γ : Type} (f : α → Option β) (g : β → γ) (as : List α) :
    (as.mapM f).map (List.map g) = as.mapM fun a => (f a).map g := by
  induction as with
  | nil => rfl
  | cons a as ih =>
    rw [List.mapM_cons, List.mapM_cons, ← ih]
    cases f a <;> cases as.mapM f <;> rfl

/-- Two lists that are the same but for one place. -/
theorem forall₂_replaced {α : Type} {R : α → α → Prop} (hrefl : ∀ a, R a a) {a b : α}
    (h : R a b) (before behind : List α) :
    List.Forall₂ R (before ++ a :: behind) (before ++ b :: behind) :=
  List.rel_append (List.forall₂_same.2 fun a _ => hrefl a)
    (.cons h (List.forall₂_same.2 fun a _ => hrefl a))

/-! ### Pages -/

/-- The field under a key, with the key to fall back on. -/
def namedField? (m : String × Json) : Option Field := (field? m.2).map (·.withKey m.1)

/-- The fields of a page. -/
def pageFields? (page : Json) : Option (List Field) := (page? page).map Page.fields

theorem pageFields?_array (items : List Json) :
    pageFields? (.array items) = items.mapM field? := by
  rw [pageFields?, page?, Option.map_map]
  exact congrFun Option.map_id _

theorem pageFields?_object (ms : List (String × Json)) :
    pageFields? (.object ms) = (Keyed.ofList ms).toList.mapM namedField? := by
  have hfields : pageFields? (.object ms) =
      (((Keyed.ofList ms).mapM? field?).map Keyed.toList).map
        (List.map fun m => m.2.withKey m.1) := by
    rw [pageFields?, page?, Option.map_map, Option.map_map]
    rfl
  rw [hfields, Keyed.toList_mapM?, map_mapM]
  refine congrArg (List.mapM · _) (funext fun m => ?_)
  rw [Keyed.mapMember?, Option.map_map]
  rfl

/-- Members with the same key that are the same field. -/
def SameField (m n : String × Json) : Prop := n.1 = m.1 ∧ namedField? n = namedField? m

theorem insertSorted_sameField {m n : String × Json} (h : SameField m n)
    {ms ns : List (String × Json)} (hs : List.Forall₂ SameField ms ns) :
    List.Forall₂ SameField (Keyed.insertSorted m.1 m.2 ms) (Keyed.insertSorted n.1 n.2 ns) := by
  obtain ⟨key, f⟩ := m
  obtain ⟨_, g⟩ := n
  cases h.1
  induction hs with
  | nil => exact .cons h .nil
  | @cons k l ms ns hkl hs ih =>
    obtain ⟨other, v⟩ := k
    obtain ⟨_, w⟩ := l
    cases hkl.1
    unfold Keyed.insertSorted
    split
    · exact .cons h (.cons hkl hs)
    · split
      · exact .cons h hs
      · exact .cons hkl ih

theorem ofList_sameField {ms ns : List (String × Json)} (h : List.Forall₂ SameField ms ns) :
    List.Forall₂ SameField (Keyed.ofList ms).toList (Keyed.ofList ns).toList := by
  let P (k l : Keyed Json) : Prop := List.Forall₂ SameField k.toList l.toList
  refine List.rel_foldl (R := SameField) (P := P) ?_ .nil h
  exact fun _ _ hs _ _ h => insertSorted_sameField h hs

/-- A page written in another way has the same fields. -/
theorem pageFields?_step {p q : Json} (h : PageStep p q) (hp : p.Distinct) (hq : q.Distinct) :
    pageFields? q = pageFields? p := by
  cases h with
  | @field before behind f g h =>
    have hfield : field? g = field? f :=
      field?_step h (hp.item List.mem_append_cons_self) (hq.item List.mem_append_cons_self)
    rw [pageFields?_array, pageFields?_array]
    exact mapM_of_forall₂ (forall₂_replaced (R := fun f g => field? g = field? f) (fun _ => rfl)
      hfield before behind) fun _ _ _ h => h
  | @keyedField before behind key f g h =>
    have hfield : field? g = field? f :=
      field?_step h (hp.value List.mem_append_cons_self) (hq.value List.mem_append_cons_self)
    have hsame : SameField (key, f) (key, g) := ⟨rfl, congrArg (Option.map _) hfield⟩
    rw [pageFields?_object, pageFields?_object]
    exact mapM_of_forall₂ (ofList_sameField (forall₂_replaced (fun _ => ⟨rfl, rfl⟩) hsame
      before behind)) fun _ _ _ h => h.2
  | reordered h => rw [pageFields?_object, pageFields?_object, Keyed.ofList_of_perm h hp.keys]
  | @listed ms sorted items hsorted hkeys h =>
    have hms : (Keyed.ofList ms).toList = sorted := by
      rw [Keyed.ofList_of_perm hsorted ((hsorted.symm.map _).nodup hp.keys),
        Keyed.toList_ofList hkeys]
    rw [pageFields?_object, pageFields?_array, hms]
    exact mapM_of_forall₂ h fun m item hitem h => field?_filled h (hq.item hitem)

/-! ### Documents -/

/-- The fields of a document. -/
def fields? (json : Json) : Option (List Field) := (template? json).map Template.fields

/-- The fields of a value under the key of pages. -/
def schemasFields? : Option Json → Option (List Field)
  | none => some []
  | some (.array pages) => (pages.mapM pageFields?).map List.flatten
  | some _ => none

theorem fields?_array (items : List Json) :
    fields? (.array items) = pageFields? (.array items) := by
  rw [fields?, template?, pageFields?, page?, Option.map_map, Option.map_map]
  refine congrArg (Option.map · _) (funext fun fields => ?_)
  exact List.append_nil fields

theorem fields?_object (ms : List (String × Json)) :
    fields? (.object ms) = schemasFields? (Json.lastValue? "schemas" ms) := by
  rw [fields?, template?]
  cases Json.lastValue? "schemas" ms with
  | none => rfl
  | some value =>
    cases value with
    | array pages =>
      have hpages : pages.mapM pageFields? = (pages.mapM page?).map (List.map Page.fields) :=
        (map_mapM page? Page.fields pages).symm
      rw [schemasFields?, hpages, Option.map_map, Option.map_map]
      rfl
    | _ => rfl

theorem schemasFields?_singleton (page : Json) :
    schemasFields? (some (.array [page])) = pageFields? page := by
  rw [schemasFields?, List.mapM_cons, List.mapM_nil]
  cases pageFields? page with
  | none => rfl
  | some fields => exact congrArg some (List.append_nil fields)

/-- A document written in another way has the same fields. -/
theorem fields?_step {j k : Json} (h : DocumentStep j k) (hj : j.Distinct) (hk : k.Distinct) :
    fields? k = fields? j := by
  cases h with
  | wrapped items =>
    have hvalue : Json.lastValue? "schemas" [("schemas", .array [.array items])] =
        some (.array [.array items]) :=
      (lastValue?_eq_some hk.keys).2 List.mem_cons_self
    rw [fields?_object, fields?_array, hvalue, schemasFields?_singleton]
  | field h =>
    rw [fields?_array, fields?_array]
    exact pageFields?_step (.field h) hj hk
  | @page before behind pages others p q h =>
    have hvaluej := (lastValue?_eq_some hj.keys).2 List.mem_append_cons_self
    have hvaluek := (lastValue?_eq_some hk.keys).2 List.mem_append_cons_self
    have hpage : pageFields? q = pageFields? p := by
      refine pageFields?_step h ?_ ?_
      · exact (hj.value List.mem_append_cons_self).item List.mem_append_cons_self
      · exact (hk.value List.mem_append_cons_self).item List.mem_append_cons_self
    rw [fields?_object, fields?_object, hvaluej, hvaluek]
    refine congrArg (Option.map _) (mapM_of_forall₂ ?_ fun _ _ _ h => h)
    exact forall₂_replaced (R := fun p q => pageFields? q = pageFields? p) (fun _ => rfl) hpage
      pages others
  | reordered h => rw [fields?_object, fields?_object, lastValue?_perm h hj.keys]
  | unknown hkey h =>
    rw [fields?_object, fields?_object, lastValue?_added h hk.keys, if_neg hkey]

/-- Two documents without duplicate keys that are written in other ways, at any number of
places. -/
def Respelled : Json → Json → Prop :=
  Relation.EqvGen fun j k => DocumentStep j k ∧ j.Distinct ∧ k.Distinct

theorem fields?_respelled {j k : Json} (h : Respelled j k) : fields? k = fields? j := by
  induction h with
  | rel j k h => exact fields?_step h.1 h.2.1 h.2.2
  | refl j => rfl
  | symm j k _ ih => exact ih.symm
  | trans j k l _ _ ihj ihk => exact ihk.trans ihj

end Document

/-- A document from which a template is read, written in other ways, is read as a template
with the same fields.  The size of a template is the number of its fields. -/
theorem ofDocument_respelled :
    (∀ (source other : String) (j k : Json) (t : Template),
      Json.read? source = some j → Json.read? other = some k → Document.Respelled j k →
        Template.ofDocument source = .ok t →
          ∃ u, Template.ofDocument other = .ok u ∧ u.fields = t.fields) ∧
    ∀ t : Template, t.size = t.fields.length := by
  refine ⟨fun source other j k t hj hk h ht => ?_, fun t => t.length_fields.symm⟩
  obtain ⟨json, hjson, ht⟩ := Template.ofDocument_eq_ok.1 ht
  cases hj.symm.trans hjson
  have hfields : Document.fields? k = some t.fields := by
    rw [Document.fields?_respelled h, Document.fields?, ht]
    rfl
  obtain ⟨u, hu, hsame⟩ := Option.map_eq_some_iff.1 hfields
  exact ⟨u, Template.ofDocument_eq_ok.2 ⟨k, hk, hu⟩, hsame⟩

/-- A page of two fields under their keys, one of them an array without a name, and the same
page as a list. -/
theorem ofDocument_respelled_listed :
    let j : Json := .object [("schemas", .array [.object [
      ("b", .object [("type", .string "text")]),
      ("a", .array [.string "expressionField", .null, .string "x + 1"])]])]
    let k : Json := .object [("schemas", .array [.array [
      .array [.string "expressionField", .string "a", .string "x + 1"],
      .object [("name", .string "b"), ("type", .string "text")]]])]
    let t : Template := { pages := [.keyed (.ofList [
      ("a", { type := "expressionField", content := some "x + 1" }), ("b", { type := "text" })])] }
    Document.Respelled j k ∧ Template.ofDocument j.compact = .ok t ∧
      ∃ u, Template.ofDocument k.compact = .ok u ∧ u.fields = t.fields := by
  intro j k t
  have hj : Json.read? j.compact = some j := by
    refine Json.read?_compact (.object (List.forall_mem_singleton.2 (.array ?_)))
    refine List.forall_mem_singleton.2 (.object ?_)
    rw [List.forall_mem_cons, List.forall_mem_singleton]
    refine ⟨.object (List.forall_mem_singleton.2 (.string _)), .array ?_⟩
    rw [List.forall_mem_cons, List.forall_mem_cons, List.forall_mem_singleton]
    exact ⟨.string _, .null, .string _⟩
  have hk : Json.read? k.compact = some k := by
    refine Json.read?_compact (.object (List.forall_mem_singleton.2 (.array ?_)))
    refine List.forall_mem_singleton.2 (.array ?_)
    rw [List.forall_mem_cons, List.forall_mem_singleton]
    refine ⟨.array ?_, .object ?_⟩
    · rw [List.forall_mem_cons, List.forall_mem_cons, List.forall_mem_singleton]
      exact ⟨.string _, .string _, .string _⟩
    · rw [List.forall_mem_cons, List.forall_mem_singleton]
      exact ⟨.string _, .string _⟩
  have hdistinct : j.Distinct ∧ k.Distinct := by
    simp [j, k, Json.Distinct.object_iff, Json.Distinct.array_iff, Json.Distinct.null,
      Json.Distinct.string]
  have hstep : Document.PageStep
      (.object [("b", .object [("type", .string "text")]),
        ("a", .array [.string "expressionField", .null, .string "x + 1"])])
      (.array [.array [.string "expressionField", .string "a", .string "x + 1"],
        .object [("name", .string "b"), ("type", .string "text")]]) := by
    refine .listed (.swap _ _ _) (by decide) (.cons (.array ?_) (.cons (.object ?_ ?_) .nil))
    · rintro v ⟨⟩
      rfl
    · exact nofun
    · exact .of_eq rfl
  have hrespelled : Document.Respelled j k :=
    Relation.EqvGen.rel j k ⟨@Document.DocumentStep.page [] [] [] [] _ _ hstep, hdistinct⟩
  have ht : Template.ofDocument j.compact = .ok t :=
    Template.ofDocument_eq_ok.2 ⟨j, hj, by decide +kernel⟩
  exact ⟨hrespelled, ht, ofDocument_respelled.1 _ _ j k t hj hk hrespelled ht⟩

end TemplateVars
