import DocQuery.Expr.Records
import DocQuery.Value.Key
import DocQuery.Value.Order

/-!
Accumulators: what a group computes from the values of its documents, one after the other.
-/

namespace DocQuery

/-- An accumulator with what it keeps of the values so far. -/
inductive Accumulator where
  /-- A sum of integers that has not left their range. -/
  | intSum (total : Int64)
  | doubleSum (total : Double)
  | average (sum : Double) (count : Nat)
  /-- The value that compares with every later one other than in this way. -/
  | extremum (keep : Ordering) (best : Option Value)
  | first (value : Option Value)
  | last (value : Option Value)
  | push (items : Array Value)
  /-- The distinct values, and their keys. -/
  | addToSet (seen : List String) (items : Array Value)
  /-- The mean, and the sum of the squares of the distances from it. -/
  | deviation (sample : Bool) (count : Nat) (mean squares : Double)
  | merge (fields : Document)
  | count (n : Nat)

namespace Accumulator

/-- The accumulators before the first value, by their names. -/
def fresh : List (String × Accumulator) :=
  [("$sum", .intSum 0), ("$avg", .average .zero 0), ("$min", .extremum .lt none), ("$max", .extremum .gt none),
    ("$first", .first none), ("$last", .last none), ("$push", .push #[]), ("$addToSet", .addToSet [] #[]),
    ("$stdDevPop", .deviation false 0 .zero .zero), ("$stdDevSamp", .deviation true 0 .zero .zero),
    ("$mergeObjects", .merge []), ("$count", .count 0)]

def ofName? (name : String) : Option Accumulator := Fields.get? fresh name

/-- Adds a number to a sum of integers; the sum becomes a double with the first double and when it leaves
    the range. -/
def addToInt (total : Int64) : Value → Accumulator
  | .int n => match int64? (total.toInt + n.toInt) with
    | some total => .intSum total
    | none => .doubleSum ((doubleOfInt total).add (doubleOfInt n))
  | .double x => .doubleSum ((doubleOfInt total).add x)
  | _ => .intSum total

/-- Takes one more value. Numeric accumulators pass over what is no number, `$min` and `$max` over null and
    missing, `$push` and `$addToSet` over missing. -/
def add (a : Accumulator) (v : Value) : Checked Accumulator :=
  match a with
  | .intSum total => .ok (addToInt total v)
  | .doubleSum total => .ok (.doubleSum (match v.toDouble? with
    | some x => total.add x
    | none => total))
  | .average sum n => .ok (match v.toDouble? with
    | some x => .average (sum.add x) (n + 1)
    | none => .average sum n)
  | .extremum keep best => .ok (.extremum keep (
    if v.isNullish then best
    else match best with
      | some b => if v.compare b = keep then some v else some b
      | none => some v))
  | .first value => .ok (.first (some (value.getD v.orNull)))
  | .last _ => .ok (.last (some v.orNull))
  | .push items => .ok (.push (if v.isMissing then items else items.push v))
  | .addToSet seen items => .ok (
    if v.isMissing || seen.contains v.key then .addToSet seen items
    else .addToSet (v.key :: seen) (items.push v))
  | .deviation sample n mean squares => .ok (match v.toDouble? with
    | some x =>
      let delta := x.sub mean
      let mean := mean.add (delta.div (.ofNat (n + 1)))
      .deviation sample (n + 1) mean (squares.add (delta.mul (x.sub mean)))
    | none => .deviation sample n mean squares)
  | .merge fields => do return .merge (← Records.mergeInto fields v)
  | .count n => .ok (.count (n + 1))

/-- What has come out. Where there was no value to compute from it is null. -/
def result : Accumulator → Value
  | .intSum total => .int total
  | .doubleSum total => .double total
  | .average sum n => if n = 0 then .null else .double (sum.div (.ofNat n))
  | .extremum _ best => best.getD .null
  | .first value | .last value => value.getD .null
  | .push items | .addToSet _ items => .array items.toList
  | .deviation sample n _ squares =>
    let freedom := if sample then n - 1 else n
    if freedom = 0 then .null else .double (squares.div (.ofNat freedom)).sqrt
  | .merge fields => .object fields
  | .count n => .int (Int64.ofNat n)

end Accumulator

end DocQuery
