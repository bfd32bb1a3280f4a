import DocQuery.Expr.Basic
import DocQuery.Value.Order

/-!
Operators on arrays that look at all items alike.
-/

namespace DocQuery.Items

open DocQuery.Value

/-- The position that an index names among `length` items; a negative one counts from the end. -/
def position? (index : Int) (length : Nat) : Option Nat :=
  let resolved := if index < 0 then length + index else index
  if 0 ≤ resolved ∧ resolved < length then some resolved.toNat else none

def elementAt (list index : Value) : Checked Value := do
  match ← list.expectItems? "$arrayElemAt" with
  | none => return .null
  | some items =>
    if index.isNullish then return .null
    let n ← index.expectInt "$arrayElemAt"
    return ((position? n items.length).bind (items[·]?)).getD .missing

/-- The items of all arrays; null as soon as one of them is null. -/
def concat : List Value → Checked Value
  | lists => go lists []
where
  go : List Value → List (List Value) → Checked Value
    | [], parts => .ok (.array parts.reverse.flatten)
    | list :: rest, parts => do
      match ← list.expectItems? "$concatArrays" with
      | none => return .null
      | some items => go rest (items :: parts)

def size : Value → Checked Value
  | .array items => .ok (.int (Int64.ofInt items.length))
  | v => .error (.wrongType "$size" "an array" v)

/-- The first `count` items, or the last ones for a negative count. -/
def takeEither (items : List Value) (count : Int) : List Value :=
  if 0 ≤ count then items.take count.toNat else items.drop (items.length - count.natAbs)

/-- At most `count` items from a position; a negative one counts from the end. -/
def window (items : List Value) (position : Int) (count : Nat) : List Value :=
  let start := if position < 0 then items.length - position.natAbs else position.toNat
  (items.drop start).take count

def slice (list first : Value) (rest : List Value) : Checked Value :=
  if (list :: first :: rest).any isNullish then .ok .null
  else match list with
    | .array items => do
      let n ← first.expectInt "$slice"
      match rest with
      | [] => return .array (takeEither items n)
      | v :: _ =>
        let count ← v.expectInt "$slice"
        if count ≤ 0 then throw (.sliceCount count)
        return .array (window items n count.toNat)
    | list => .error (.wrongType "$slice" "an array" list)

def reverse (list : Value) : Checked Value := do
  match ← list.expectItems? "$reverseArray" with
  | none => return .null
  | some items => return .array items.reverse

/-- An item that `pick` finds in an array, missing if there is none. -/
def pick (operator : String) (pick : List Value → Option Value) (list : Value) : Checked Value := do
  match ← list.expectItems? operator with
  | none => return .null
  | some items => return (pick items).getD .missing

/-- A bound of a search; a negative one counts as 0. -/
def bound (operator : String) (default : Nat) : Option Value → Checked Nat
  | none => .ok default
  | some v => do return (← v.expectInt operator).toNat

/-- The position of the first equal item between two bounds, or -1. -/
def indexOf (list v : Value) (bounds : List Value) : Checked Value :=
  match list with
  | .missing | .null => .ok .null
  | .array items => do
    let start ← bound "$indexOfArray" 0 bounds[0]?
    let stop ← bound "$indexOfArray" items.length bounds[1]?
    match ((items.take stop).drop start).findIdx? fun item => item.equal v with
    | some i => return .int (Int64.ofInt (start + i))
    | none => return .int (-1)
  | list => .error (.wrongType "$indexOfArray" "an array" list)

/-- The most items that a range has. -/
def maxRange : Nat := 1000000

/-- How many steps lead from `start` to before `stop`. -/
def rangeLength (start stop step : Int) : Nat :=
  let span := stop - start
  if span = 0 ∨ (0 < span) ≠ (0 < step) then 0
  else (span.natAbs + step.natAbs - 1) / step.natAbs

def range (start stop : Value) (rest : List Value) : Checked Value := do
  let start ← start.expectInt "$range"
  let stop ← stop.expectInt "$range"
  let step ← match rest with
    | v :: _ => v.expectInt "$range"
    | [] => pure 1
  if step = 0 then throw .rangeStepZero
  let count := rangeLength start stop step
  if maxRange < count then throw (.rangeTooLong count maxRange)
  return .array ((List.range count).map fun i : Nat => .int (Int64.ofInt (start + (i : Int) * step)))

def operators : List (String × Operator) :=
  [("$arrayElemAt", .binary "$arrayElemAt" elementAt), ("$concatArrays", .variadic concat),
    ("$size", .unary "$size" size), ("$slice", .ranged "$slice" 1 slice),
    ("$reverseArray", .unary "$reverseArray" reverse),
    ("$isArray", .unary "$isArray" fun v => .ok (.bool v.isArray)),
    ("$first", .unary "$first" (pick "$first" List.head?)), ("$last", .unary "$last" (pick "$last" List.getLast?)),
    ("$indexOfArray", .ranged "$indexOfArray" 2 indexOf), ("$range", .ranged "$range" 1 range)]

end DocQuery.Items
