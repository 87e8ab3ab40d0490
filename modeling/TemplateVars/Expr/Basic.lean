/-
Expression trees.

Design notes: a tree keeps what the analysis and the reports can show: names,
literals, operators and shapes, but neither parentheses nor positions.  A
property name written out and one computed between brackets are the two cases
of `Key`, for members, object literals and patterns alike.  Of a function body
written as a block nothing is kept.
-/
import TemplateVars.Expr.Operator

namespace TemplateVars

inductive Literal where
  | number (value : Number)
  | bigint (digits : String)
  | string (value : String)
  | boolean (value : Bool)
  | null
  | regex (pattern flags : String)
  deriving DecidableEq, Repr

inductive PropertyKind where
  | init | method | get | set
  deriving DecidableEq, Repr

inductive FunctionStyle where
  | arrow | expression
  deriving DecidableEq, Repr

mutual

inductive Expr where
  | identifier (name : String)
  | literal (value : Literal)
  | binary (operator : BinaryOperator) (left right : Expr)
  | logical (operator : LogicalOperator) (left right : Expr)
  | unary (operator : UnaryOperator) (argument : Expr)
  | conditional (test consequent alternate : Expr)
  /-- `object.name`, `object[property]`, and both after `?.`. -/
  | member (object : Expr) (property : Key) (optional : Bool)
  | call (callee : Expr) (arguments : List Expr) (optional : Bool)
  /-- An array literal; a hole is `none`. -/
  | array (elements : List (Option Expr))
  | object (properties : List Property)
  | function (style : FunctionStyle) (isAsync : Bool) (name : Option String)
      (params : List Pattern) (body : Body)
  /-- `a, b, c` -/
  | sequence (items : List Expr)
  | assign (operator : AssignOperator) (target value : Expr)
  | update (operator : UpdateOperator) (place : UpdatePlace) (argument : Expr)
  /-- `...argument` in an array literal or among arguments. -/
  | spread (argument : Expr)
  | new (callee : Expr) (arguments : List Expr)
  /-- A template literal: the pieces around its substitutions. -/
  | template (quasis : List String) (substitutions : List Expr)
  | tagged (tag quasi : Expr)
  | this
  | super
  /-- `new.target` -/
  | newTarget

/-- The name of a property. -/
inductive Key where
  /-- An identifier, string or number that is written out. -/
  | fixed (name : String)
  /-- An expression between brackets. -/
  | computed (expression : Expr)

/-- A member of an object literal. -/
inductive Property where
  | keyed (key : Key) (value : Expr) (kind : PropertyKind) (shorthand : Bool)
  | spread (argument : Expr)

inductive Body where
  | expression (value : Expr)
  /-- A block of statements, whose content is not read. -/
  | block

/-- A parameter, and what it takes apart. -/
inductive Pattern where
  | identifier (name : String)
  | object (properties : List PatternProperty)
  | array (elements : List (Option Pattern))
  | rest (target : Pattern)
  | withDefault (target : Pattern) (value : Expr)

inductive PatternProperty where
  | keyed (key : Key) (value : Pattern)
  | rest (target : Pattern)

end

/-- The kind of a tree's root. -/
def Expr.nodeKind : Expr → String
  | identifier _ => "Identifier"
  | literal _ => "Literal"
  | binary .. => "BinaryExpression"
  | logical .. => "LogicalExpression"
  | unary .. => "UnaryExpression"
  | conditional .. => "ConditionalExpression"
  | member .. => "MemberExpression"
  | call .. => "CallExpression"
  | array _ => "ArrayExpression"
  | object _ => "ObjectExpression"
  | function .arrow .. => "ArrowFunctionExpression"
  | function .expression .. => "FunctionExpression"
  | sequence _ => "SequenceExpression"
  | assign .. => "AssignmentExpression"
  | update .. => "UpdateExpression"
  | spread _ => "SpreadElement"
  | new .. => "NewExpression"
  | template .. => "TemplateLiteral"
  | tagged .. => "TaggedTemplateExpression"
  | this => "ThisExpression"
  | super => "Super"
  | newTarget => "MetaProperty"

mutual

/-- The names a pattern binds, in source order. -/
def Pattern.boundNames : Pattern → List String
  | .identifier name => [name]
  | .object properties => boundInProperties properties
  | .array elements => boundInElements elements
  | .rest target => target.boundNames
  | .withDefault target _ => target.boundNames

def PatternProperty.boundNames : PatternProperty → List String
  | .keyed _ value => value.boundNames
  | .rest target => target.boundNames

def boundInProperties : List PatternProperty → List String
  | [] => []
  | p :: rest => p.boundNames ++ boundInProperties rest

def boundInElements : List (Option Pattern) → List String
  | [] => []
  | none :: rest => boundInElements rest
  | some p :: rest => p.boundNames ++ boundInElements rest

end

end TemplateVars
