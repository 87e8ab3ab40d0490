/-
JSON documents.

Design notes: a number is kept as its text, an object as its members in the
order in which they were written, duplicates included; what a duplicate means is
for the reader of the document to say.
-/
import TemplateVars.Json.Quoted

namespace TemplateVars

inductive Json where
  | null
  | bool (value : Bool)
  | number (literal : String)
  | string (value : String)
  | array (items : List Json)
  | object (members : List (String × Json))

namespace Json

def nat (n : Nat) : Json := number n.repr

def strings (values : List String) : Json := array (values.map string)

/-- The value of a key; of duplicates the last one counts. -/
def lastValue? (key : String) (members : List (String × Json)) : Option Json :=
  (members.reverse.find? (·.1 == key)).map (·.2)

/-- The texts in an array of nothing but strings. -/
def stringList? : Json → Option (List String)
  | array items => items.mapM fun
    | string value => some value
    | _ => none
  | _ => none

end Json

end TemplateVars
