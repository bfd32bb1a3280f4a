import DocQuery.Expr.Basic

/-!
Operators on objects.
-/

namespace DocQuery.Records

open DocQuery.Value

/-- The object of one field, with its name under `k` and its value under `v`. -/
def pairOf (field : String × Value) : Value := .object [("k", .string field.1), ("v", field.2)]

def toPairs : Value → Checked Value
  | .missing | .null => .ok .null
  | .object fields => .ok (.array (fields.map pairOf))
  | v => .error (.wrongType "$objectToArray" "an object" v)

/-- The key and the value of a pair: an object with just the fields `k` and `v`, or an array of two. -/
def pair? : Value → Option (Value × Value)
  | .object [("k", k), ("v", v)] | .object [("v", v), ("k", k)] | .array [k, v] => some (k, v)
  | _ => none

/-- Adds a pair to the fields that are there. -/
def insertPair (fields : Document) (item : Value) : Checked Document :=
  match pair? item with
  | some (.string name, v) => .ok (fields.insert name v)
  | some (k, _) => .error (.wrongType "$arrayToObject" "string keys" k)
  | none => .error (.notPair item)

/-- The object of an array of pairs; of pairs with one key the last counts, in the place of the first. -/
def ofPairs : Value → Checked Value
  | .missing | .null => .ok .null
  | .array items => do return .object (← items.foldlM insertPair [])
  | v => .error (.wrongType "$arrayToObject" "an array" v)

/-- The fields with those of another object written over them; null and missing add nothing. -/
def mergeInto (fields : Document) : Value → Checked Document
  | .missing | .null => .ok fields
  | .object other => .ok (fields.merge other)
  | v => .error (.wrongType "$mergeObjects" "objects" v)

def merge (values : List Value) : Checked Value := do return .object (← values.foldlM mergeInto [])

def operators : List (String × Operator) :=
  [("$objectToArray", .unary "$objectToArray" toPairs), ("$arrayToObject", .unary "$arrayToObject" ofPairs),
    ("$mergeObjects", .variadic merge)]

end DocQuery.Records
