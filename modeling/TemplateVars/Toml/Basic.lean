/-
TOML documents, and how their tables may be put together.

* `Toml.define` puts a value under a dotted key of a table;
* `Toml.openTable` and `Toml.openElement` start the table of a header;
* `Toml.assemble` builds a document from its lines.

Design notes: who defined a table decides who may add to it.  A header defines
its table once, and may come after headers of tables inside it; dotted keys add
only to tables that dotted keys defined, though they may pass through a table
that exists for the sake of inner headers; an inline table is finished where it
ends.  A number, truth value, date or time is kept as its text.
-/

namespace TemplateVars

namespace Toml

/-- How a table came about. -/
inductive Origin where
  /-- Written between braces. -/
  | inline
  /-- Opened by its own header. -/
  | header
  /-- Passed through by the header of an inner table. -/
  | implied
  /-- Passed through by a dotted key. -/
  | dotted
  deriving DecidableEq, Repr

end Toml

/-- What stands under a key. -/
inductive Toml where
  /-- A number, truth value, date or time. -/
  | atom (literal : String)
  | string (value : String)
  | array (items : List Toml)
  | table (origin : Toml.Origin) (members : List (String × Toml))
  /-- The tables of the headers in double brackets. -/
  | tables (elements : List (List (String × Toml)))

namespace Toml

/-- The keys of a table with their values. -/
abbrev Members := List (String × Toml)

/-- The value of a key. -/
def value? (key : String) (members : Members) : Option Toml :=
  (members.find? (·.1 == key)).map (·.2)

/-- Changes the value of a key, which may be absent; the change may be
refused. -/
def alter (key : String) (change : Option Toml → Option Toml) : Members → Option Members
  | [] => (change none).map fun value => [(key, value)]
  | (k, value) :: rest =>
    if k = key then (change (some value)).map fun value => (k, value) :: rest
    else (alter key change rest).map fun rest => (k, value) :: rest

/-- Changes the last one of some tables. -/
def alterLast (change : Members → Option Members) :
    List Members → Option (List Members)
  | [] => none
  | [last] => (change last).map fun last => [last]
  | first :: rest => (alterLast change rest).map fun rest => first :: rest

/-- Puts a value under a dotted key, where none may be yet; `mayEnd` is false in
tables that are only passed through. -/
def define (value : Toml) : List String → Bool → Members → Option Members
  | [], _, _ => none
  | [key], mayEnd, members =>
    if mayEnd then
      alter key
        (fun
          | none => some value
          | some _ => none)
        members
    else none
  | key :: rest, _, members =>
    alter key
      (fun
        | none => (define value rest true []).map (.table .dotted)
        | some (.table .dotted inner) => (define value rest true inner).map (.table .dotted)
        | some (.table .implied inner) => (define value rest false inner).map (.table .implied)
        | some (.tables elements) => (alterLast (define value rest false) elements).map .tables
        | some _ => none)
      members

/-- Changes the table that the keys of a header lead to, through the last one of
several tables. -/
def within (change : Members → Option Members) : List String → Members → Option Members
  | [], members => change members
  | key :: rest, members =>
    alter key
      (fun
        | none => (within change rest []).map (.table .implied)
        | some (.table .inline _) => none
        | some (.table origin inner) => (within change rest inner).map (.table origin)
        | some (.tables elements) => (alterLast (within change rest) elements).map .tables
        | some _ => none)
      members

/-- Opens the table of a header: a new one, or one that is there only for the
sake of inner headers. -/
def openTable : Option Toml → Option Toml
  | none => some (.table .header [])
  | some (.table .implied members) => some (.table .header members)
  | some _ => none

/-- Opens one more table under a header in double brackets. -/
def openElement : Option Toml → Option Toml
  | none => some (.tables [[]])
  | some (.tables elements) => some (.tables (elements ++ [[]]))
  | some _ => none

/-- A line of a document. -/
inductive Line where
  | entry (key : List String) (value : Toml)
  | header (path : List String)
  | element (path : List String)

/-- A document so far, and the path of the table that entries go to. -/
structure Draft where
  root : Members := []
  path : List String := []

/-- Starts the table of a header. -/
def Draft.start (d : Draft) (opening : Option Toml → Option Toml) (path : List String) :
    Option Draft :=
  match path.getLast? with
  | none => none
  | some key =>
    (within (alter key opening) path.dropLast d.root).map fun root => { root, path }

def Draft.add (d : Draft) : Line → Option Draft
  | .entry key value =>
    (within (define value key true) d.path d.root).map fun root => { d with root }
  | .header path => d.start openTable path
  | .element path => d.start openElement path

/-- The document that lines make, unless one contradicts the lines above it. -/
def assemble (lines : List Line) : Option Members :=
  (lines.foldlM Draft.add {}).map (·.root)

/-- The members of an inline table. -/
def inlineMembers (entries : List (List String × Toml)) : Option Members :=
  entries.foldlM (fun members entry => define entry.2 entry.1 true members) []

/-- The texts in an array of nothing but strings. -/
def stringList? : Toml → Option (List String)
  | array items => items.mapM fun
    | string value => some value
    | _ => none
  | _ => none

end Toml

end TemplateVars
