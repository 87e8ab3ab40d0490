/-
Log messages of an analysis.

Design notes: the messages of an expression follow its analysis step by step:
the tokens, the nodes as they are walked, the names found.  Names are quoted
with the marks that attach to a character before them, and the characters that
show nothing, spelled as code points, so that none hides in its neighbour.
-/
import TemplateVars.Template.Scan
import TemplateVars.Text.GraphemeExtend

namespace TemplateVars

/-- How much a message matters. -/
inductive Level where
  | warn | debug | trace
  deriving DecidableEq, Repr

namespace Level

def name : Level → String
  | warn => "WARN"
  | debug => "DEBUG"
  | trace => "TRACE"

/-- The higher, the more detailed. -/
def rank : Level → Nat
  | warn => 0
  | debug => 1
  | trace => 2

end Level

structure LogEntry where
  level : Level
  text : String
  deriving DecidableEq, Repr

namespace Log

/-- The characters of names that show nothing: the Hangul fillers and the zero
width joiner. -/
def isInvisible (c : Char) : Bool :=
  ['\u115f', '\u1160', '\u200d', '\u3164', '\uffa0'].contains c

/-- The halfwidth sound marks of Katakana, which attach to the character before
them but have a place of their own. -/
def isHalfwidthMark (c : Char) : Bool := c == '\uff9e' || c == '\uff9f'

/-- A character that could not be told apart in a message. -/
def isIndistinct (c : Char) : Bool :=
  isInvisible c || (Text.isGraphemeExtend c && !isHalfwidthMark c)

/-- A character of a name as it stands in a message. -/
def nameChar (c : Char) : List Char :=
  if isIndistinct c then
    '\\' :: 'u' :: '{' :: Nat.toDigits 16 c.toNat ++ ['}']
  else [c]

/-- A name between quotation marks. -/
def quotedName (name : String) : String :=
  String.ofList ('\x22' :: name.toList.flatMap nameChar ++ ['\x22'])

/-- Names between braces. -/
def quotedNames (names : NameSet) : String :=
  "\x7b" ++ ", ".intercalate (names.toList.map quotedName) ++ "\x7d"

/-- What a trace says about an event, if anything. -/
def ofEvent? : Event → Option LogEntry
  | .reference .. => none
  | .descending parts nodeKind =>
    some ⟨.trace, "Visiting " ++ parts.repr ++ " children of " ++ nodeKind⟩
  | .passedOver .arrow => some ⟨.trace, "Not descending into block-bodied arrow function"⟩
  | .passedOver .expression => some ⟨.trace, "Not descending into block-bodied function"⟩

/-- The messages about reading and walking a source that is not blank. -/
def ofSource (options : Options) (source : String) : List LogEntry :=
  let lexed : LogEntry :=
    ⟨.trace, "Lexed " ++ (tokenize source).length.repr ++ " tokens from '" ++ source ++ "'"⟩
  match parse source with
  | .error _ => [lexed]
  | .ok e =>
    let reads := "'" ++ source ++ "' reads " ++ quotedNames (freeVariables options e)
    lexed :: (walk [.expr e] []).1.filterMap ofEvent? ++ [⟨.debug, reads⟩]

/-- The messages about analysing an expression, and what is said when it cannot
be read. -/
def ofAnalysis (options : Options) (expression : String) (failed : String → String) :
    List LogEntry :=
  let source := sourceOf expression
  let entries := if isBlankSource source then [] else ofSource options source
  match analyze options expression with
  | .ok _ => entries
  | .error e => entries ++ [⟨.warn, failed e.text⟩]

/-- The messages about finding the variables of one expression. -/
def ofExpression (options : Options) (expression : String) : List LogEntry :=
  ofAnalysis options expression fun error =>
    "Expression '" ++ expression ++ "' contributes no variables: " ++ error

/-- The messages about one field. -/
def ofField (options : Options) (f : Field) : List LogEntry :=
  match f.expression? options with
  | some expression =>
    ofAnalysis options expression fun error =>
      "Expression in '" ++ f.label ++ "' contributes no variables: " ++ error
  | none => []

/-- The messages about finding the variables of all fields. -/
def ofFields (options : Options) (fields : List Field) : List LogEntry :=
  let a := Aggregation.ofFields options fields
  let summary := "Scanned " ++ a.expressions.repr ++ " expression fields: " ++
    a.found.size.repr ++ " variables, " ++ a.diagnostics.length.repr ++ " failures"
  fields.flatMap (ofField options) ++ [⟨.debug, summary⟩]

/-- The messages up to a level of detail. -/
def upTo (level : Level) (entries : List LogEntry) : List LogEntry :=
  entries.filter fun entry => entry.level.rank ≤ level.rank

end Log

end TemplateVars
