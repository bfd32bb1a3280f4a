import DocQuery.Fault
import DocQuery.Path

/-!
The fields that a stage writes or reads.

A specification names fields by dotted paths, or by objects in objects: `a` with the object of `b` in it
stands for `a.b`.
-/

namespace DocQuery

/-- A field name is a path without empty segments that does not look like an operator. -/
def isFieldName (name : String) : Bool := !isOperatorName name && !(Path.ofString name).contains ""

def checkFieldName (stage name : String) : Checked Path :=
  if isFieldName name then .ok (Path.ofString name) else .error (.fieldName stage name)

/-- Does the object nest fields, rather than call an operator or stand for itself? -/
def nestsFields (fields : Document) : Bool := !fields.isEmpty && !fields.any (isOperatorName ·.1)

mutual

/-- The fields that a value specifies for a path: those of an object, else just the one that `leaf` reads
    from the value. -/
def Value.leafFields {α : Type} (stage : String) (leaf : Value → Checked α) (path : Path) :
    Value → Checked (List (Path × α))
  | .object fields =>
    if nestsFields fields then leafFieldsOf stage leaf path fields
    else do return [(path, ← leaf (.object fields))]
  | v => do return [(path, ← leaf v)]

/-- The fields that an object specifies below a path. -/
def leafFieldsOf {α : Type} (stage : String) (leaf : Value → Checked α) (parent : Path) :
    List (String × Value) → Checked (List (Path × α))
  | [] => .ok []
  | (name, v) :: rest => do
    let path ← checkFieldName stage name
    let here ← v.leafFields stage leaf (parent ++ path)
    return here ++ (← leafFieldsOf stage leaf parent rest)

end

/-- The object that a stage is given as a document. -/
def expectDocument (stage : String) : Value → Checked Document
  | .object fields => .ok fields
  | v => .error (.notDocument stage v)

end DocQuery
