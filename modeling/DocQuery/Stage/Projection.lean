import DocQuery.Expr
import DocQuery.Stage.Field

/-!
Projections and computed fields.

A projection lists fields to keep, to drop or to compute. One that keeps a field, or computes some and
drops none but `_id`, starts from nothing but `_id` and adds what is listed; any other starts from the whole
document. Every expression sees the document as it came in.
-/

namespace DocQuery

/-- Writes a computed value at a path; a missing value removes what is there. -/
def assign (path : Path) (v : Value) (doc : Document) : Document :=
  if v.isMissing then path.remove doc else path.set v doc

/-- Fields and the expressions for their values. -/
abbrev Computed := List (Path × Value)

namespace Computed

def leaf (v : Value) : Checked Value := do
  Expr.validate v
  return v

def ofValue (stage : String) : Value → Checked Computed
  | .object fields =>
    if fields.isEmpty then .error (.stageWithoutFields stage) else leafFieldsOf stage leaf [] fields
  | _ => .error (.stageNotObject stage)

/-- Writes the computed fields into a document. -/
def applyTo (computed : Computed) (source : Document) : Checked Document :=
  computed.foldlM (fun doc (path, e) => do return assign path (← Expr.evaluateOn e (.object source)) doc) source

end Computed

/-- What becomes of a field. -/
inductive Action where
  | keep
  | drop
  | compute (expression : Value)

namespace Action

def isKeep : Action → Bool
  | keep => true
  | _ => false

def isDrop : Action → Bool
  | drop => true
  | _ => false

def isCompute : Action → Bool
  | compute _ => true
  | _ => false

/-- Truth values and numbers tell whether to keep the field; anything else computes it. -/
def ofValue : Value → Checked Action
  | .bool b => .ok (if b then keep else drop)
  | .int n => .ok (if (Value.int n).isTruthy then keep else drop)
  | .double x => .ok (if (Value.double x).isTruthy then keep else drop)
  | e => do
    Expr.validate e
    return compute e

end Action

structure Projection where
  fields : List (Path × Action)

namespace Projection

/-- The path of the field that is kept unless it is dropped by name. -/
def idPath : Path := ["_id"]

def keepsSome (fields : List (Path × Action)) : Bool := fields.any (·.2.isKeep)

/-- The first field other than `_id` that is dropped. -/
def dropped? (fields : List (Path × Action)) : Option (Path × Action) :=
  fields.find? fun (path, action) => action.isDrop && path ≠ idPath

def ofValue : Value → Checked Projection
  | .object spec => do
    if spec.isEmpty then throw (.stageWithoutFields "$project")
    let fields ← leafFieldsOf "$project" Action.ofValue [] spec
    match dropped? fields with
    | some (path, _) => if keepsSome fields then throw (.exclusionInInclusion (".".intercalate path))
    | none => pure ()
    return { fields }
  | _ => .error .projectNotObject

/-- Does the projection start from nothing? -/
def isInclusion (p : Projection) : Bool :=
  keepsSome p.fields || (p.fields.any (·.2.isCompute) && (dropped? p.fields).isNone)

def dropsId (p : Projection) : Bool := p.fields.any fun (path, action) => action.isDrop && path = idPath

/-- Adds a listed field to what has been kept so far. -/
def addField (source : Document) (doc : Document) : Path × Action → Checked Document
  | (path, .keep) => .ok (if path = idPath then doc else path.copy source doc)
  | (path, .compute e) => do
    let v ← Expr.evaluateOn e (.object source)
    return if v.isMissing then doc else path.set v doc
  | (_, .drop) => .ok doc

/-- Changes a listed field in the whole document. -/
def changeField (source : Document) (doc : Document) : Path × Action → Checked Document
  | (_, .keep) => .ok doc
  | (path, .compute e) => do return assign path (← Expr.evaluateOn e (.object source)) doc
  | (path, .drop) => .ok (path.remove doc)

/-- The document of `_id` alone, if it is there and not dropped. -/
def start (p : Projection) (source : Document) : Document :=
  if p.dropsId then [] else (source.get? "_id").toList.map fun id => ("_id", id)

def applyTo (p : Projection) (source : Document) : Checked Document :=
  if p.isInclusion then p.fields.foldlM (addField source) (p.start source)
  else p.fields.foldlM (changeField source) source

end Projection

end DocQuery
