import DocQuery.Accumulator
import DocQuery.Expr
import DocQuery.Stage.Sort

/-!
Grouping documents.

Documents with equal `_id` values form a group. Groups come in the order in which they were first met, and
the accumulators of a group see its documents in their order.
-/

namespace DocQuery

/-- A field of a group: the accumulator it starts with, and the expression for the values. -/
structure GroupField where
  name : String
  start : Accumulator
  expression : Value

structure Grouping where
  id : Value
  fields : List GroupField

/-- A group that has been met: its `_id` value, the key of that value, and its accumulators. -/
structure Group where
  id : Value
  key : String
  accumulators : List Accumulator

namespace GroupField

/-- Counting takes no argument. -/
def checkArgument (operator : String) (v : Value) : Checked Unit :=
  match operator, v with
  | "$count", .object [] => .ok ()
  | "$count", _ => .error .countWithArguments
  | _, _ => .ok ()

def ofField : String × Value → Checked GroupField
  | (name, v) => do
    let path ← checkFieldName "$group" name
    if path.length ≠ 1 then throw (.groupFieldDotted name)
    let .object [(operator, expression)] := v | throw (.groupFieldShape name)
    let some start := Accumulator.ofName? operator | throw (.unknownAccumulator operator)
    checkArgument operator expression
    Expr.validate expression
    return { name, start, expression }

end GroupField

namespace Grouping

def ofValue : Value → Checked Grouping
  | .object spec => do
    let some id := Fields.get? spec "_id" | throw .groupWithoutId
    (Expr.validate id).mapError .inGroupId
    return { id, fields := ← (spec.filter (·.1 ≠ "_id")).mapM GroupField.ofField }
  | _ => .error .groupNotObject

/-- The groups of a value with the number of documents in each. -/
def counting (id : Value) : Grouping := { id, fields := [⟨"count", .intSum 0, .int 1⟩] }

/-- Gives each accumulator its value for a document. -/
def feed (g : Grouping) (document : Value) (accumulators : List Accumulator) : Checked (List Accumulator) :=
  (g.fields.zip accumulators).mapM fun (field, a) => do a.add (← Expr.evaluateOn field.expression document)

/-- Adds a document to its group, which is a new one if its key has not been met. -/
def add (g : Grouping) (limit : Option Nat) (groups : List Group) (document : Value) : Checked (List Group) := do
  let id := (← Expr.evaluateOn g.id document).orNull
  let key := id.key
  match groups.find? (·.key = key) with
  | some group =>
    let accumulators ← g.feed document group.accumulators
    return groups.map fun other => if other.key = key then { other with accumulators } else other
  | none =>
    if let some limit := limit then
      if limit < groups.length + 1 then throw (.tooManyGroups limit)
    return groups ++ [{ id, key, accumulators := ← g.feed document (g.fields.map (·.start)) }]

/-- The document that a group comes to. -/
def document (g : Grouping) (group : Group) : Value :=
  .object (Fields.ofList (("_id", group.id) ::
    (g.fields.zip group.accumulators).map fun (field, a) => (field.name, a.result)))

def applyTo (g : Grouping) (limit : Option Nat) (docs : List Value) : Checked (List Value) := do
  return (← docs.foldlM (g.add limit) []).map g.document

end Grouping

/-- The expressions that can be counted by: paths, variables and operators. -/
def countable (v : Value) : Checked Value := do
  let isExpression ← match v with
    | .string s => pure (isOperatorName s)
    | .object fields => do pure (← Expr.invocation? fields).isSome
    | _ => pure false
  if !isExpression then throw .sortByCountShape
  Expr.validate v
  return v

/-- The values of an expression with their numbers, the most frequent first. -/
def sortByCount (id : Value) (limit : Option Nat) (docs : List Value) : Checked (List Value) := do
  return sortBy [{ path := ["count"], descending := true }] (← (Grouping.counting id).applyTo limit docs)

end DocQuery
