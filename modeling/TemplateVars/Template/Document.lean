/-
Templates as JSON documents.

* `Template.ofDocument` reads a document, `Template.toDocument` writes one.

Design notes: a document is an object with a list of pages, or an array that is
the only page.  A field is an object, or an array of its type, name, content and
read-only mark that may break off anywhere.  An absent mark and a `null` are the
same, except that the type must not be `null`.  Unknown keys are ignored; of a
key that is written twice the last value counts.
-/
import TemplateVars.Json.Printer
import TemplateVars.Json.Reader
import TemplateVars.Template.Basic

namespace TemplateVars

/-- Why a text is no template. -/
inductive DocumentError where
  /-- It is not JSON. -/
  | notJson
  /-- It is JSON of another shape. -/
  | notTemplate
  deriving DecidableEq, Repr

def DocumentError.message : DocumentError → String
  | notJson => "Invalid template JSON"
  | notTemplate => "Invalid template structure"

namespace Document

/-- A text that has to be there; an absent one is empty. -/
def text? : Option Json → Option String
  | none => some ""
  | some (.string value) => some value
  | _ => none

/-- A text that may be absent or `null`. -/
def optionalText? : Option Json → Option (Option String)
  | none => some none
  | some .null => some none
  | some (.string value) => some (some value)
  | _ => none

/-- A truth value that may be absent or `null`. -/
def optionalBool? : Option Json → Option (Option Bool)
  | none => some none
  | some .null => some none
  | some (.bool value) => some (some value)
  | _ => none

/-- The field with the given parts. -/
def fieldOf? (type name content readOnly : Option Json) : Option Field := do
  let type ← text? type
  let name ← optionalText? name
  let content ← optionalText? content
  let readOnly ← optionalBool? readOnly
  some { type, name, content, readOnly }

def field? : Json → Option Field
  | .object members =>
    fieldOf? (Json.lastValue? "type" members) (Json.lastValue? "name" members)
      (Json.lastValue? "content" members) (Json.lastValue? "readOnly" members)
  | .array items =>
    if items.length ≤ 4 then fieldOf? items[0]? items[1]? items[2]? items[3]? else none
  | _ => none

def page? : Json → Option Page
  | .array items => (items.mapM field?).map Page.list
  | .object members => ((Keyed.ofList members).mapM? field?).map Page.keyed
  | _ => none

def template? : Json → Option Template
  | .array items => (items.mapM field?).map Template.ofFields
  | .object members =>
    match Json.lastValue? "schemas" members with
    | none => some {}
    | some (.array pages) => (pages.mapM page?).map fun ps => { pages := ps }
    | some _ => none
  | _ => none

/-- A member for a value that is there. -/
def memberOf {α : Type} (key : String) (toJson : α → Json) : Option α → List (String × Json)
  | some value => [(key, toJson value)]
  | none => []

def ofField (f : Field) : Json :=
  .object ([("type", .string f.type)] ++ memberOf "name" .string f.name ++
    memberOf "content" .string f.content ++ memberOf "readOnly" .bool f.readOnly)

def ofPage : Page → Json
  | .list fields => .array (fields.map ofField)
  | .keyed fields => .object (fields.toList.map fun (key, f) => (key, ofField f))

def ofTemplate (t : Template) : Json :=
  .object [("schemas", .array (t.pages.map ofPage))]

end Document

/-- The template that a document holds. -/
def Template.ofDocument (source : String) : Except DocumentError Template :=
  match Json.read? source with
  | none => .error .notJson
  | some json =>
    match Document.template? json with
    | none => .error .notTemplate
    | some t => .ok t

/-- The document of a template, in one line. -/
def Template.toDocument (t : Template) : String := (Document.ofTemplate t).compact

end TemplateVars
