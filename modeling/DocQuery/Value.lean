import DocQuery.Double.Decimal
import DocQuery.Fields
import DocQuery.Instant

/-!
Values of documents.

A value is what JSON can hold, with dates, with 64-bit integers apart from doubles, and with `missing`,
the result of looking for something that is not there.
-/

namespace DocQuery

inductive Value where
  | missing
  | null
  | bool (b : Bool)
  | int (n : Int64)
  | double (x : Double)
  | string (s : String)
  | date (t : Instant)
  | array (items : List Value)
  | object (fields : List (String × Value))

abbrev Document := Fields Value

/-! ### Integers -/

/-- The integer as a 64-bit one, if it fits. -/
def int64? (n : Int) : Option Int64 :=
  if Int64.minValue.toInt ≤ n ∧ n ≤ Int64.maxValue.toInt then some (Int64.ofInt n) else none

/-- The 64-bit integer nearest to `n`. -/
def clampInt64 (n : Int) : Int64 :=
  if n < Int64.minValue.toInt then Int64.minValue
  else if Int64.maxValue.toInt < n then Int64.maxValue
  else Int64.ofInt n

/-- The double nearest to a 64-bit integer. -/
def doubleOfInt (n : Int64) : Double := Double.ofInt n.toInt

/-- The 64-bit integer that a double has as its whole part, the nearest one if that is out of range, and
    0 for NaN. -/
def clampDouble : Double → Int64
  | .nan => 0
  | .infinite negative => if negative then Int64.minValue else Int64.maxValue
  | x@(.finite ..) => clampInt64 x.toInt

/-- Is the bit set in two's complement? All bits from the last one on are like the sign. -/
def isBitSet (n : Int64) (position : Nat) : Bool :=
  if 63 ≤ position then n.toInt < 0 else (n.toInt >>> position) % 2 = 1

namespace Value

instance : Inhabited Value := ⟨.null⟩

/-- The name of the type; a double that is a whole number counts as an integer. -/
def typeName : Value → String
  | missing => "undefined"
  | null => "null"
  | bool _ => "bool"
  | int _ => "int"
  | double x => if x.isIntegral then "int" else "double"
  | string _ => "string"
  | date _ => "date"
  | array _ => "array"
  | object _ => "object"

/-! ### Tests -/

def isMissing : Value → Bool
  | missing => true
  | _ => false

def isNull : Value → Bool
  | null => true
  | _ => false

/-- Null or missing. -/
def isNullish : Value → Bool
  | missing | null => true
  | _ => false

def isNumber : Value → Bool
  | int _ | double _ => true
  | _ => false

def isArray : Value → Bool
  | array _ => true
  | _ => false

def isObject : Value → Bool
  | object _ => true
  | _ => false

/-- False, null, missing and the number zero do not hold; everything else does. -/
def isTruthy : Value → Bool
  | missing | null => false
  | bool b => b
  | int n => n ≠ 0
  | double x => !x.isZero
  | _ => true

/-! ### Views -/

def toDouble? : Value → Option Double
  | int n => some (doubleOfInt n)
  | double x => some x
  | _ => none

/-- Doubles below this magnitude are read as integers when they are whole. -/
def integerBound : Double := Double.ofDecimal false 92 17

/-- An integer, or a whole double below `9.2 * 10 ^ 18`. -/
def toInt? : Value → Option Int64
  | int n => some n
  | double x => if x.isIntegral && x.abs.lt integerBound then some (Int64.ofInt x.toInt) else none
  | _ => none

def toBool? : Value → Option Bool
  | bool b => some b
  | _ => none

def toString? : Value → Option String
  | string s => some s
  | _ => none

def toDate? : Value → Option Instant
  | date t => some t
  | _ => none

def toArray? : Value → Option (List Value)
  | array items => some items
  | _ => none

def toObject? : Value → Option Document
  | object fields => some fields
  | _ => none

/-- The value of a field; values other than objects have none. -/
def get? : Value → String → Option Value
  | object fields, name => Fields.get? fields name
  | _, _ => none

/-- Null in place of missing. -/
def orNull : Value → Value
  | missing => null
  | v => v

/-- A count as a number. -/
def ofCount (n : Nat) : Value :=
  match int64? n with
  | some n => int n
  | none => double (Double.ofNat n)

end Value

end DocQuery
