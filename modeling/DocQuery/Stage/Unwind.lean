import DocQuery.Stage.Field

/-!
Unwinding arrays: one document for each item, with the item in place of the array.
-/

namespace DocQuery

structure Unwinding where
  path : Path
  /-- The field for the position of the item. -/
  index : Option Path := none
  /-- Keeps documents in which there is no item. -/
  keepEmpty : Bool := false

namespace Unwinding

/-- What is written for an unwinding so far. -/
structure Options where
  path : Option String := none
  index : Option Path := none
  keepEmpty : Bool := false

def readOption (options : Options) : String × Value → Checked Options
  | ("path", v) => .ok { options with path := v.toString? }
  | ("includeArrayIndex", .string name) => do return { options with index := some (← checkFieldName "$unwind" name) }
  | ("includeArrayIndex", _) => .error .unwindIndexNotString
  | ("preserveNullAndEmptyArrays", .bool b) => .ok { options with keepEmpty := b }
  | ("preserveNullAndEmptyArrays", _) => .error .unwindPreserveNotBool
  | (name, _) => .error (.unwindUnknownOption name)

/-- The path that a string with a dollar sign in front names. -/
def pathOf (text : String) : Checked Path :=
  match text.toList with
  | '$' :: name => checkFieldName "$unwind" (String.ofList name)
  | _ => .error .unwindPathPrefix

def ofValue : Value → Checked Unwinding
  | .string text => do return { path := ← pathOf text }
  | .object fields => do
    let options ← fields.foldlM readOption {}
    let some text := options.path | throw .unwindWithoutPath
    return { path := ← pathOf text, index := options.index, keepEmpty := options.keepEmpty }
  | _ => .error .unwindShape

/-- Writes the position of an item. -/
def withIndex (u : Unwinding) (index : Value) (doc : Document) : Value :=
  .object (match u.index with
    | some path => path.set index doc
    | none => doc)

/-- A value that is no array counts as its own item, without a position. -/
def applyTo (u : Unwinding) (doc : Document) : List Value :=
  match u.path.get? (.object doc) with
  | some (.array []) => if u.keepEmpty then [u.withIndex .null (u.path.remove doc)] else []
  | some (.array items) => items.zipIdx.map fun (item, i) => u.withIndex (.ofCount i) (u.path.set item doc)
  | none | some .null => if u.keepEmpty then [u.withIndex .null doc] else []
  | some _ => [u.withIndex .null doc]

end Unwinding

end DocQuery
