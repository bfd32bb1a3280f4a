import DocQuery.Stage.Field
import DocQuery.Value.Order

/-!
Sorting documents by fields, the first one first. Documents that compare equal keep their order.
-/

namespace DocQuery

structure SortKey where
  path : Path
  descending : Bool

namespace SortKey

def compare (k : SortKey) (a b : Value) : Ordering :=
  let ordering := ((k.path.get? a).getD .missing).compare ((k.path.get? b).getD .missing)
  if k.descending then ordering.swap else ordering

def ofField : String × Value → Checked SortKey
  | (name, v) => do
    let descending ← match v.toInt?.map Int64.toInt with
      | some 1 => pure false
      | some (-1) => pure true
      | _ => throw (.sortDirection name)
    return { path := ← checkFieldName "$sort" name, descending }

def ofValue : Value → Checked (List SortKey)
  | .object fields => if fields.isEmpty then .error .sortNoKeys else fields.mapM ofField
  | _ => .error (.stageNotObject "$sort")

end SortKey

/-- Compares by each key until one decides. -/
def compareBy (keys : List SortKey) (a b : Value) : Ordering :=
  match keys with
  | [] => .eq
  | k :: rest => (k.compare a b).then (compareBy rest a b)

def sortBy (keys : List SortKey) (docs : List Value) : List Value :=
  docs.mergeSort fun a b => compareBy keys a b != .gt

end DocQuery
