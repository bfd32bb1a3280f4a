import DocQuery.Value
import DocQuery.Text.Quoted

/-!
Canonical keys: texts that are the same for values that are equal under the total order. Dates are taken
to the millisecond.
-/

namespace DocQuery

/-- The 64-bit integer that a double is worth exactly, if there is one. -/
def exactInt? (x : Double) : Option Int64 := if x.isIntegral then int64? x.toInt else none

namespace Value

def numberKey (x : Double) : String :=
  match exactInt? x with
  | some n => toString n.toInt
  | none => x.text Double.keyLayout

mutual

def key : Value → String
  | missing | null => "null"
  | bool b => if b then "true" else "false"
  | int n => "n:" ++ toString n.toInt
  | double x => "n:" ++ numberKey x
  | string s => "s:" ++ Text.quoted s
  | date t => "d:" ++ toString t.millis
  | array items => "[" ++ ",".intercalate (itemKeys items) ++ "]"
  | object fields => "\x7b" ++ ",".intercalate (fieldKeys fields) ++ "\x7d"

def itemKeys : List Value → List String
  | [] => []
  | item :: rest => key item :: itemKeys rest

def fieldKeys : List (String × Value) → List String
  | [] => []
  | (name, value) :: rest => (Text.quoted name ++ ":" ++ key value) :: fieldKeys rest

end

end Value

end DocQuery
