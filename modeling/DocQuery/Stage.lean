import DocQuery.Query
import DocQuery.Stage.Group
import DocQuery.Stage.Projection
import DocQuery.Stage.Unwind

/-!
Stages: steps from a list of documents to another one.
-/

namespace DocQuery

/-- The most documents that a pipeline takes, and the most groups that a stage makes of them. -/
structure Limits where
  maxDocuments : Option Nat := none
  maxGroups : Option Nat := none

/-- What stages may ask for beside their documents. -/
structure Setting where
  limits : Limits := {}
  search : Option TextSearch := none

inductive Stage where
  | filter (query : Query)
  | project (projection : Projection)
  | addFields (computed : Computed)
  | unset (paths : List Path)
  | group (grouping : Grouping)
  | sort (keys : List SortKey)
  | limit (n : Nat)
  | skip (n : Nat)
  | count (field : String)
  | unwind (unwinding : Unwinding)
  | replaceRoot (expression : Value)
  | sortByCount (expression : Value)

namespace Stage

/-! ### Reading -/

/-- A number of documents. -/
def countOf (stage : String) (least : Int) (v : Value) : Checked Nat :=
  match v.toInt? with
  | some n => if least ≤ n.toInt then .ok n.toInt.toNat else .error (.stageCount stage least v)
  | none => .error (.stageCount stage least v)

def fieldNamesOf : Value → Checked (List String)
  | .string name => .ok [name]
  | .array items => items.mapM fun
    | .string name => .ok name
    | _ => .error .unsetShape
  | .object fields => .ok (Fields.names fields)
  | _ => .error .unsetShape

def unsetOf (v : Value) : Checked (List Path) := do
  let names ← fieldNamesOf v
  if names.isEmpty then throw .unsetNothing
  names.mapM (checkFieldName "$unset")

/-- The one field of a count. -/
def countFieldOf : Value → Checked String
  | .string name =>
    if name.toList.contains '.' then .error .countFieldDotted
    else do
      let _ ← checkFieldName "$count" name
      return name
  | _ => .error .countFieldNotString

def newRootOf : Value → Checked Value
  | .object [("newRoot", e)] => do
    Expr.validate e
    return e
  | _ => .error .replaceRootShape

/-- The stage of a name with its specification. -/
def ofSpecification (name : String) (v : Value) : Checked Stage :=
  match name with
  | "$match" => (Query.ofValue v).map filter
  | "$project" => (Projection.ofValue v).map project
  | "$addFields" | "$set" => (Computed.ofValue name v).map addFields
  | "$unset" => (unsetOf v).map unset
  | "$group" => (Grouping.ofValue v).map group
  | "$sort" => (SortKey.ofValue v).map sort
  | "$limit" => (countOf name 1 v).map limit
  | "$skip" => (countOf name 0 v).map skip
  | "$count" => (countFieldOf v).map count
  | "$unwind" => (Unwinding.ofValue v).map unwind
  | "$replaceRoot" => (newRootOf v).map replaceRoot
  | "$replaceWith" => do
    Expr.validate v
    return replaceRoot v
  | "$sortByCount" => (countable v).map sortByCount
  | name => .error (.unknownStage name)

/-! ### Running -/

/-- The elements that pass a test, in their order. -/
def keep {α : Type} (test : α → Checked Bool) : List α → Checked (List α)
  | [] => .ok []
  | x :: rest => do
    if ← test x then return x :: (← keep test rest) else keep test rest

/-- Changes documents one by one. -/
def each (stage : String) (f : Document → Checked Document) (docs : List Value) : Checked (List Value) :=
  docs.mapM fun v => do return .object (← f (← expectDocument stage v))

/-- The object that a document is replaced with. -/
def newRoot (expression document : Value) : Checked Value := do
  match ← Expr.evaluateOn expression document with
  | .object fields => return .object fields
  | v => throw (.newRootNotObject v)

/-- The documents that come out of a stage, which is called by its name in faults. -/
def run (setting : Setting) (name : String) (docs : List Value) : Stage → Checked (List Value)
  | filter query => keep (query.test setting.search) docs
  | project projection => each name projection.applyTo docs
  | addFields computed => each name computed.applyTo docs
  | unset paths => each name (fun doc => .ok (paths.foldl (fun doc path => path.remove doc) doc)) docs
  | group grouping => grouping.applyTo setting.limits.maxGroups docs
  | sort keys => .ok (sortBy keys docs)
  | limit n => .ok (docs.take n)
  | skip n => .ok (docs.drop n)
  | count field => .ok (if docs.isEmpty then [] else [.object [(field, .ofCount docs.length)]])
  | unwind unwinding => do return (← docs.mapM fun v => do return unwinding.applyTo (← expectDocument name v)).flatten
  | replaceRoot expression => docs.mapM (newRoot expression)
  | sortByCount expression => DocQuery.sortByCount expression setting.limits.maxGroups docs

end Stage

end DocQuery
