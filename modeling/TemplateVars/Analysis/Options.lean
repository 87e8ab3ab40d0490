/-
The names and field types that are known beforehand, and those that a user adds.

Design notes: the tables are always in effect; options only add to them, except
that the list of expression types is replaced as a whole.
-/

namespace TemplateVars

/-- Names that the render engine supplies while it draws a page. -/
def renderNames : List String := ["date", "dateTime", "currentPage", "totalPages"]

/-- Global objects and functions that any expression may use. -/
def globalNames : List String :=
  ["undefined", "NaN", "Infinity", "globalThis", "Object", "Function", "Boolean", "Symbol",
   "Error", "Number", "BigInt", "Math", "Date", "Intl", "String", "RegExp", "Array", "Map",
   "Set", "WeakMap", "WeakSet", "JSON", "Promise", "Reflect", "isNaN", "isFinite",
   "parseFloat", "parseInt", "decodeURI", "decodeURIComponent", "encodeURI",
   "encodeURIComponent"]

/-- Field types that draw a shape and never supply a value. -/
def shapeTypes : List String := ["line", "rectangle", "ellipse"]

/-- The field type whose content is an expression. -/
def expressionFieldType : String := "expressionField"

/-- Whether a name is supplied without any field. -/
def isBuiltin (name : String) : Bool :=
  renderNames.contains name || globalNames.contains name

/-- Whether a field type is a shape. -/
def isShapeType (type : String) : Bool := shapeTypes.contains type

/-- What a user adds to the tables. -/
structure Options where
  /-- More names that are supplied without a field. -/
  extraBuiltins : List String := []
  /-- The field types whose content is an expression. -/
  expressionTypes : List String := [expressionFieldType]
  /-- More field types that never supply a value. -/
  extraStaticTypes : List String := []
  deriving DecidableEq, Repr

namespace Options

def isBuiltin (o : Options) (name : String) : Bool :=
  TemplateVars.isBuiltin name || o.extraBuiltins.contains name

def isExpressionType (o : Options) (type : String) : Bool := o.expressionTypes.contains type

def isStaticType (o : Options) (type : String) : Bool :=
  isShapeType type || o.extraStaticTypes.contains type

end Options

end TemplateVars
