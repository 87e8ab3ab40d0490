/-
Expression trees as one line of text: `(head child child …)`.

Design notes: names and texts stand as JSON strings, numbers in positional
notation, holes of arrays and patterns as the word `hole`.  A tree becomes a
tree of atoms first, which is then written from left to right into one string.
-/
import TemplateVars.Expr.Basic
import TemplateVars.Json.Quoted

namespace TemplateVars

/-- Atoms, nested in parentheses. -/
inductive Sexp where
  | atom (text : String)
  | list (items : List Sexp)

namespace Sexp

/-- A list that starts with a word. -/
def node (head : String) (children : List Sexp) : Sexp := list (atom head :: children)

def quoted (s : String) : Sexp := atom (Json.quote s)

mutual

/-- Writes behind a text. -/
def writeTo (out : String) : Sexp → String
  | atom text => out ++ text
  | list items => writeItems (out.push '(') items |>.push ')'

def writeItems (out : String) : List Sexp → String
  | [] => out
  | [item] => item.writeTo out
  | item :: rest => writeItems ((item.writeTo out).push ' ') rest

end

def text (s : Sexp) : String := s.writeTo ""

end Sexp

def Literal.toSexp : Literal → Sexp
  | number value => .node "num" [.atom value.text]
  | bigint digits => .node "bigint" [.quoted digits]
  | string value => .node "str" [.quoted value]
  | boolean value => .node "bool" [.atom (if value then "true" else "false")]
  | null => .node "null" []
  | regex pattern flags => .node "regex" [.quoted pattern, .quoted flags]

def PropertyKind.word : PropertyKind → String
  | init => "init"
  | method => "method"
  | get => "get"
  | set => "set"

/-- The word for a link of a chain that may or may not be optional. -/
def linkWord (optional : Bool) : Sexp := .atom (if optional then "optional" else "plain")

mutual

def Expr.toSexp : Expr → Sexp
  | .identifier name => .node "id" [.quoted name]
  | .literal value => value.toSexp
  | .binary op left right => .node "bin" [.atom op.spelling, left.toSexp, right.toSexp]
  | .logical op left right => .node "logical" [.atom op.spelling, left.toSexp, right.toSexp]
  | .unary op argument => .node "unary" [.atom op.spelling, argument.toSexp]
  | .conditional test consequent alternate =>
    .node "cond" [test.toSexp, consequent.toSexp, alternate.toSexp]
  | .member object (.fixed name) optional =>
    .node "member" [.atom "named", linkWord optional, object.toSexp, .node "id" [.quoted name]]
  | .member object (.computed property) optional =>
    .node "member" [.atom "computed", linkWord optional, object.toSexp, property.toSexp]
  | .call callee arguments optional =>
    .node "call" (linkWord optional :: callee.toSexp :: sexpsOfExprs arguments)
  | .array elements => .node "array" (sexpsOfElements elements)
  | .object properties => .node "object" (sexpsOfProperties properties)
  | .function style isAsync name params body =>
    .node "function"
      [.atom (match style with | .arrow => "arrow" | .expression => "expression"),
       .atom (if isAsync then "async" else "sync"),
       (match name with | some name => .quoted name | none => .atom "anonymous"),
       .node "params" (sexpsOfPatterns params), body.toSexp]
  | .sequence items => .node "sequence" (sexpsOfExprs items)
  | .assign op target value => .node "assign" [.atom op.spelling, target.toSexp, value.toSexp]
  | .update op place argument =>
    .node "update" [.atom op.spelling,
      .atom (match place with | .before => "prefix" | .after => "postfix"), argument.toSexp]
  | .spread argument => .node "spread" [argument.toSexp]
  | .new callee arguments => .node "new" (callee.toSexp :: sexpsOfExprs arguments)
  | .template quasis substitutions =>
    .node "template" (.node "quasis" (quasis.map Sexp.quoted) :: sexpsOfExprs substitutions)
  | .tagged tag quasi => .node "tagged" [tag.toSexp, quasi.toSexp]
  | .this => .node "this" []
  | .super => .node "super" []
  | .newTarget => .node "newtarget" []

def Key.toSexp : Key → Sexp
  | .fixed name => .node "static" [.quoted name]
  | .computed expression => .node "computed" [expression.toSexp]

def Property.toSexp : Property → Sexp
  | .keyed key value kind shorthand =>
    .node "prop" [.atom kind.word, .atom (if shorthand then "short" else "full"),
      key.toSexp, value.toSexp]
  | .spread argument => .node "propspread" [argument.toSexp]

def Body.toSexp : Body → Sexp
  | .expression value => value.toSexp
  | .block => .node "block" []

def Pattern.toSexp : Pattern → Sexp
  | .identifier name => .node "pid" [.quoted name]
  | .object properties => .node "pobj" (sexpsOfPatternProperties properties)
  | .array elements => .node "parr" (sexpsOfPatternElements elements)
  | .rest target => .node "prest" [target.toSexp]
  | .withDefault target value => .node "pdef" [target.toSexp, value.toSexp]

def PatternProperty.toSexp : PatternProperty → Sexp
  | .keyed key value => .node "pkv" [key.toSexp, value.toSexp]
  | .rest target => .node "pobjrest" [target.toSexp]

def sexpsOfExprs : List Expr → List Sexp
  | [] => []
  | e :: rest => e.toSexp :: sexpsOfExprs rest

def sexpsOfElements : List (Option Expr) → List Sexp
  | [] => []
  | none :: rest => .atom "hole" :: sexpsOfElements rest
  | some e :: rest => e.toSexp :: sexpsOfElements rest

def sexpsOfProperties : List Property → List Sexp
  | [] => []
  | p :: rest => p.toSexp :: sexpsOfProperties rest

def sexpsOfPatterns : List Pattern → List Sexp
  | [] => []
  | p :: rest => p.toSexp :: sexpsOfPatterns rest

def sexpsOfPatternProperties : List PatternProperty → List Sexp
  | [] => []
  | p :: rest => p.toSexp :: sexpsOfPatternProperties rest

def sexpsOfPatternElements : List (Option Pattern) → List Sexp
  | [] => []
  | none :: rest => .atom "hole" :: sexpsOfPatternElements rest
  | some p :: rest => p.toSexp :: sexpsOfPatternElements rest

end

end TemplateVars
