import DocQuery.Expr.Basic
import DocQuery.Value.Order

/-!
Comparisons of values under the total order.
-/

namespace DocQuery.Relation

/-- An operator that tells something of how its two arguments compare. -/
def comparing (operator : String) (f : Ordering → Value) : Operator :=
  .binary operator fun a b => .ok (f (a.compare b))

def test (operator : String) (holds : Ordering → Bool) : Operator :=
  comparing operator fun ordering => .bool (holds ordering)

/-- -1, 0 or 1 for less, equal and greater. -/
def sign : Ordering → Int64
  | .lt => -1
  | .eq => 0
  | .gt => 1

/-- Is the first argument equal to an item of the second? -/
def isIn (v list : Value) : Checked Value :=
  match list with
  | .array items => .ok (.bool (items.any fun item => item.equal v))
  | list => .error (.wrongType "$in" "an array as its second argument" list)

def operators : List (String × Operator) :=
  [("$eq", test "$eq" (· == .eq)), ("$ne", test "$ne" (· != .eq)), ("$gt", test "$gt" (· == .gt)),
    ("$gte", test "$gte" (· != .lt)), ("$lt", test "$lt" (· == .lt)), ("$lte", test "$lte" (· != .gt)),
    ("$cmp", comparing "$cmp" fun ordering => .int (sign ordering)), ("$in", .binary "$in" isIn)]

end DocQuery.Relation
