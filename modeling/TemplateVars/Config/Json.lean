/-
Configurations written in JSON.

Design notes: a configuration is an object, or an array of exactly its four
entries.  `null` leaves an entry unset.  Keys that are not known are ignored
together with their values, of which only the grammar is checked; a known key
may come only once.
-/
import TemplateVars.Config.Basic
import TemplateVars.Json.Reader

namespace TemplateVars.Config

/-- An entry that is a list of texts. -/
def jsonList? : Option Json → Option (Option (List String))
  | none => some none
  | some .null => some none
  | some value => value.stringList?.map some

/-- An entry that names a form, by a string or as the key of `null`. -/
def jsonForm? : Option Json → Option (Option OutputForm)
  | none => some none
  | some .null => some none
  | some (.string name) => (OutputForm.ofName? name).map some
  | some (.object [(name, .null)]) => (OutputForm.ofName? name).map some
  | some _ => none

/-- The configuration with the given entries. -/
def ofJsonEntries? (builtins types statics form : Option Json) : Option Config := do
  let extraBuiltins ← jsonList? builtins
  let expressionTypes ← jsonList? types
  let extraStaticTypes ← jsonList? statics
  let form ← jsonForm? form
  some { extraBuiltins, expressionTypes, extraStaticTypes, form }

/-- The members of an object from behind its brace up to its closing one; values
of unknown keys are skimmed. -/
def jsonMembers? : Nat → List Char → Option (List (String × Json) × List Char)
  | 0, _ => none
  | steps + 1, s =>
    match (Json.Reader.mark? '\x22' s).bind (Json.Reader.string? .strict) with
    | none => none
    | some (key, rest) =>
      let key := String.ofList key
      let mode := if keys.contains key then .strict else .skimming
      match (Json.Reader.mark? ':' rest).bind
          (Json.Reader.value mode (Json.Reader.stepsFor s) Json.maxNesting) with
      | none => none
      | some (value, rest) =>
        match Json.Reader.mark? ',' rest with
        | some rest => (jsonMembers? steps rest).map fun (ms, rest) => ((key, value) :: ms, rest)
        | none => (Json.Reader.mark? '}' rest).map fun rest => ([(key, value)], rest)

/-- An object, of which nothing may follow but space. -/
def jsonObject? (s : List Char) : Option (List (String × Json)) :=
  let closed (members : List (String × Json)) (rest : List Char) :=
    if Json.skipSpace rest = [] then some members else none
  match Json.Reader.mark? '{' s with
  | none => none
  | some rest =>
    match Json.Reader.mark? '}' rest with
    | some rest => closed [] rest
    | none => (jsonMembers? rest.length rest).bind fun (members, rest) => closed members rest

/-- Whether every known key comes at most once. -/
def hasUniqueKeys (members : List (String × Json)) : Bool :=
  keys.all fun key => (members.filter (·.1 == key)).length ≤ 1

/-- The configuration that a JSON text spells. -/
def ofJson? (text : String) : Option Config :=
  match jsonObject? text.toList with
  | some members =>
    let entry (key : String) := Json.lastValue? key members
    if hasUniqueKeys members then
      ofJsonEntries? (entry "extra_builtins") (entry "expression_types")
        (entry "extra_static_types") (entry "format")
    else none
  | none =>
    match Json.read? text with
    | some (.array [builtins, types, statics, form]) =>
      ofJsonEntries? (some builtins) (some types) (some statics) (some form)
    | _ => none

end TemplateVars.Config
