import DocQuery.Value

/-!
The total order of values.

Null and missing come first and are equal; then numbers, strings, objects, arrays, truth values and
dates. Numbers are compared by what they are worth, integers and doubles alike; strings by their code
points; objects pair by pair, name before value, and arrays item by item, a proper beginning being less.
-/

namespace DocQuery

/-- An integer against a double, without rounding: a double out of the range of integers decides at once,
    and otherwise the whole part is compared before the fraction. -/
def compareIntDouble (n : Int64) (x : Double) : Ordering :=
  match x with
  | .nan => .gt
  | .infinite negative => if negative then .gt else .lt
  | .finite .. =>
    let whole := x.toInt
    if Int64.maxValue.toInt < whole then .lt
    else if whole < Int64.minValue.toInt then .gt
    else (compare n.toInt whole).then (Double.compare x.trunc x)

namespace Value

def rank : Value → Nat
  | missing | null => 0
  | int _ | double _ => 1
  | string _ => 2
  | object _ => 3
  | array _ => 4
  | bool _ => 5
  | date _ => 6

mutual

def compare : Value → Value → Ordering
  | int m, int n => Ord.compare m.toInt n.toInt
  | int m, double y => compareIntDouble m y
  | double x, int n => (compareIntDouble n x).swap
  | double x, double y => Double.compare x y
  | string s, string t => Ord.compare s t
  | bool b, bool c => Ord.compare b c
  | date t, date u => Instant.compare t u
  | array xs, array ys => compareItems xs ys
  | object xs, object ys => compareFields xs ys
  | v, w => Ord.compare v.rank w.rank

def compareItems : List Value → List Value → Ordering
  | [], [] => .eq
  | [], _ :: _ => .lt
  | _ :: _, [] => .gt
  | v :: vs, w :: ws => (compare v w).then (compareItems vs ws)

def compareFields : List (String × Value) → List (String × Value) → Ordering
  | [], [] => .eq
  | [], _ :: _ => .lt
  | _ :: _, [] => .gt
  | (k, v) :: vs, (l, w) :: ws => (Ord.compare k l).then ((compare v w).then (compareFields vs ws))

end

/-- Equality under the total order, by which `2` equals `2.0` and missing equals null. -/
def equal (v w : Value) : Bool := compare v w == .eq

end Value

end DocQuery
