import DocQuery.Double.Reader
import DocQuery.Expr.Basic

/-!
Types and conversions between them.
-/

namespace DocQuery.Conversion

open DocQuery.Value

/-- The integer that a value converts to: doubles lose their fraction, and strings must write an integer. -/
def toInt (operator : String) (v : Value) : Checked Value :=
  match v with
  | .missing | .null => .ok .null
  | .int n => .ok (.int n)
  | .double x =>
    if x.isFinite && x.trunc.abs.lt integerBound then .ok (.int (clampDouble x))
    else .error (.conversionFailed operator v)
  | .bool b => .ok (.int (if b then 1 else 0))
  | .string s =>
    match (intOfText? (Text.trim s)).bind int64? with
    | some n => .ok (.int n)
    | none => .error (.conversionFailed operator v)
  | v => .error (.conversionFailed operator v)

def toDouble (v : Value) : Checked Value :=
  match v with
  | .missing | .null => .ok .null
  | .int n => .ok (.double (doubleOfInt n))
  | .double x => .ok (.double x)
  | .bool b => .ok (.double (if b then .ofNat 1 else .zero))
  | .date t => .ok (.double (.ofInt t.millis))
  | .string s =>
    match Double.ofText? (Text.trim s) with
    | some x => .ok (.double x)
    | none => .error (.conversionFailed "$toDouble" v)
  | v => .error (.conversionFailed "$toDouble" v)

/-- Strings hold, even empty ones; other values hold if they are truthy. -/
def toBool (v : Value) : Checked Value := .ok (.bool v.isTruthy)

def toText : Value → Checked Value
  | .missing | .null => .ok .null
  | .string s => .ok (.string s)
  | .bool b => .ok (.string (if b then "true" else "false"))
  | .int n => .ok (.string (toString n.toInt))
  | .double x => .ok (.string x.toText)
  | .date t => .ok (.string t.toText)
  | v => .error (.wrongType "$toString" "a scalar value" v)

def operators : List (String × Operator) :=
  [("$type", .unary "$type" fun v => .ok (.string v.typeName)), ("$toInt", .unary "$toInt" (toInt "$toInt")),
    ("$toLong", .unary "$toLong" (toInt "$toLong")), ("$toDouble", .unary "$toDouble" toDouble),
    ("$toBool", .unary "$toBool" toBool), ("$toString", .unary "$toString" toText),
    ("$isNumber", .unary "$isNumber" fun v => .ok (.bool v.isNumber))]

end DocQuery.Conversion
