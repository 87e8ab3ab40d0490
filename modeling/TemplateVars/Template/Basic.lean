/-
Templates: fields on pages.

Design notes: a page lists its fields, or, in older documents, keys them by
name; the key then stands in for a name that a field does not have.
-/
import TemplateVars.Template.Keyed

namespace TemplateVars

/-- One field of a page. -/
structure Field where
  type : String := ""
  name : Option String := none
  content : Option String := none
  readOnly : Option Bool := none
  deriving DecidableEq, Repr

namespace Field

def isReadOnly (f : Field) : Bool := f.readOnly.getD false

/-- How messages call a field: by its name, or by its type if it has none. -/
def label (f : Field) : String :=
  match f.name with
  | some name => name
  | none => "<unnamed " ++ f.type ++ ">"

/-- The field with a name to fall back on. -/
def withKey (f : Field) (key : String) : Field :=
  { f with name := some (f.name.getD key) }

end Field

inductive Page where
  | list (fields : List Field)
  | keyed (fields : Keyed Field)
  deriving DecidableEq, Repr

namespace Page

def size : Page → Nat
  | list fields => fields.length
  | keyed fields => fields.size

/-- The fields of a page in order. -/
def fields : Page → List Field
  | list fields => fields
  | keyed fields => fields.toList.map fun (key, field) => field.withKey key

theorem length_fields (p : Page) : p.fields.length = p.size := by
  cases p <;> simp [fields, size, Keyed.size]

end Page

structure Template where
  pages : List Page := []
  deriving DecidableEq, Repr

namespace Template

/-- A template of one page. -/
def ofFields (fields : List Field) : Template := { pages := [.list fields] }

/-- Every field of every page, in page order. -/
def fields (t : Template) : List Field := t.pages.flatMap Page.fields

/-- The number of fields. -/
def size (t : Template) : Nat := t.pages.foldr (fun p n => p.size + n) 0

theorem length_fields (t : Template) : t.fields.length = t.size := by
  obtain ⟨pages⟩ := t
  induction pages with
  | nil => rfl
  | cons p ps ih =>
    have h : (⟨p :: ps⟩ : Template).fields = p.fields ++ (⟨ps⟩ : Template).fields := rfl
    rw [h, List.length_append, p.length_fields, ih]
    rfl

end Template

end TemplateVars
