import DocQuery.Find
import DocQuery.Value.Json

/-!
Options as JSON.

Options are written as an object, in which unknown names are passed over, or as an array of their values in
order, of which the last ones may be left out. Null is an option that is not given.
-/

namespace DocQuery.Options

/-- The options by their names. -/
def named? (names : List String) : Json → Option (Fields Json)
  | .object members => some members
  | .array items => if items.length ≤ names.length then some (names.zip items) else none
  | _ => none

/-- An option that may be null or left out. -/
def optional? {α : Type} (read : Json → Option α) (options : Fields Json) (name : String) : Option (Option α) :=
  match options.get? name with
  | none | some .null => some none
  | some v => (read v).map some

/-- An unsigned number of 64 bits. -/
def natural? : Json → Option Nat
  | .integer n => if 0 ≤ n ∧ n < UInt64.size then some n.toNat else none
  | _ => none

/-- A signed number of 32 bits. -/
def direction? : Json → Option Int
  | .integer n => if Int32.minValue.toInt ≤ n ∧ n ≤ Int32.maxValue.toInt then some n else none
  | _ => none

def sortKey? : Json → Option (String × Int)
  | .array [.string name, direction] => (direction? direction).map (name, ·)
  | _ => none

def sort? : Json → Option (List (String × Int))
  | .array keys => keys.mapM sortKey?
  | _ => none

def policies : List (String × ErrorPolicy) := [("abort", .abort), ("skip_document", .skipDocument)]

/-- A policy is named by a string, or by the one name of an object with nothing in it. -/
def policy? : Json → Option ErrorPolicy
  | .string name | .object [(name, .null)] => policies.lookup name
  | _ => none

def policyName (policy : ErrorPolicy) : String :=
  match policy with
  | .abort => "abort"
  | .skipDocument => "skip_document"

def ofNatural? : Option Nat → Json
  | some n => .integer n
  | none => .null

end DocQuery.Options

namespace DocQuery

namespace Limits

open Options

def names : List String := ["max_input_documents", "max_groups"]

def ofJson? (j : Json) : Option Limits := do
  let options ← named? names j
  return {
    maxDocuments := ← optional? natural? options "max_input_documents"
    maxGroups := ← optional? natural? options "max_groups" }

def toJson (l : Limits) : Json :=
  .object [("max_input_documents", ofNatural? l.maxDocuments), ("max_groups", ofNatural? l.maxGroups)]

end Limits

namespace FindOptions

open Options

def names : List String := ["projection", "sort", "skip", "limit", "error_policy", "max_scanned"]

def ofJson? (j : Json) : Option FindOptions := do
  let options ← named? names j
  return {
    projection := ← optional? (some ∘ Value.ofJson) options "projection"
    sort := ← optional? sort? options "sort"
    skip := ← optional? natural? options "skip"
    limit := ← optional? natural? options "limit"
    policy := ← match options.get? "error_policy" with
      | some v => policy? v
      | none => some .abort
    maxScanned := ← optional? natural? options "max_scanned" }

def sortJson : Option (List (String × Int)) → Json
  | some keys => .array (keys.map fun (name, direction) => .array [.string name, .integer direction])
  | none => .null

def projectionJson : Option Value → Json
  | some v => v.toJson
  | none => .null

def toJson (o : FindOptions) : Json :=
  .object [("projection", projectionJson o.projection), ("sort", sortJson o.sort), ("skip", ofNatural? o.skip),
    ("limit", ofNatural? o.limit), ("error_policy", .string (policyName o.policy)),
    ("max_scanned", ofNatural? o.maxScanned)]

end FindOptions

end DocQuery
