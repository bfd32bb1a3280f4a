import DocQuery.Value

/-!
Names for the types of values, as filters and schemas write them.
-/

namespace DocQuery

inductive ValueType where
  | double
  | int
  | number
  | string
  | object
  | array
  | bool
  | null
  | date
  | missing
deriving DecidableEq

namespace ValueType

/-- Is the value of this type? A double that is a whole number counts as an integer. -/
def describes (t : ValueType) (v : Value) : Bool :=
  match t with
  | double => v.typeName = "double"
  | int => v.typeName = "int"
  | number => v.isNumber
  | string => v.typeName = "string"
  | object => v.typeName = "object"
  | array => v.typeName = "array"
  | bool => v.typeName = "bool"
  | null => v.typeName = "null"
  | date => v.typeName = "date"
  | missing => v.typeName = "undefined"

/-- The names that filters use. -/
def aliases : List (String × ValueType) :=
  [("double", double), ("int", int), ("long", int), ("number", number), ("decimal", number), ("string", string),
    ("object", object), ("array", array), ("bool", bool), ("boolean", bool), ("null", null), ("date", date),
    ("undefined", missing)]

/-- The codes that filters may use in place of names. -/
def codes : List (Int × ValueType) :=
  [(1, double), (2, string), (3, object), (4, array), (6, missing), (8, bool), (9, date), (10, null), (16, int),
    (18, int), (19, number)]

/-- The type that a filter names or gives the code of. -/
def ofAlias? : Value → Option ValueType
  | .string name => Fields.get? aliases name
  | v => v.toInt?.bind fun code => codes.lookup code.toInt

/-- The names that schemas use; the first name of a type is the one that is shown. -/
def schemaNames : List (String × ValueType) :=
  [("object", object), ("array", array), ("string", string), ("number", number), ("integer", int), ("int", int),
    ("long", int), ("double", double), ("boolean", bool), ("bool", bool), ("null", null), ("date", date)]

def ofSchemaName? (name : String) : Option ValueType := Fields.get? schemaNames name

def schemaName (t : ValueType) : String :=
  match schemaNames.find? (·.2 = t) with
  | some (name, _) => name
  | none => "undefined"

end ValueType

end DocQuery
