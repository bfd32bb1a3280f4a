import DocQuery.Double.Elementary
import DocQuery.Expr.Basic

/-!
Arithmetic.

A null or missing operand makes the result null. Integers stay integers until a result does not fit in
64 bits; then the computation goes on in doubles. A date can be moved by milliseconds.
-/

namespace DocQuery.Number

open DocQuery.Value

/-- The date among the terms of a sum; `found` is the one that came before, and there may be no other. All
    other terms must be numbers. -/
def dateAmong (found : Option Instant) : List Value → Checked (Option Instant)
  | [] => .ok found
  | .date t :: rest => if found.isSome then .error .twoDates else dateAmong (some t) rest
  | .int _ :: rest | .double _ :: rest => dateAmong found rest
  | v :: _ => .error (.wrongType "$add" "numbers or a date" v)

/-- Combines the integers among some values in their order. There is no result if a double is among them
    or a result on the way does not fit in 64 bits. -/
def exactly? (f : Int → Int → Int) (start : Int64) (values : List Value) : Option Int64 :=
  values.foldlM (fun total v => match v with
    | .int n => int64? (f total.toInt n.toInt)
    | .double _ => none
    | _ => some total) start

/-- Combines the numbers among some values in their order, as doubles. -/
def inDoubles (f : Double → Double → Double) (start : Double) (values : List Value) : Double :=
  (values.filterMap toDouble?).foldl f start

/-- An amount of milliseconds; a double is rounded, and must then be a 64-bit integer. -/
def millisOf (operator : String) : Value → Checked Int
  | .int n => .ok n.toInt
  | v => do
    let x := (← v.expectDouble operator).round
    match x.isFinite, int64? x.toInt with
    | true, some n => .ok n.toInt
    | _, _ => .error (.offsetOutOfRange operator x)

/-- Moves a date; `forward` tells the direction. -/
def shift (operator : String) (t : Instant) (millis : Int) (forward : Bool) : Checked Value :=
  match t.shift? (if forward then millis else -millis) with
  | some t => .ok (.date t)
  | none => .error (.dateOutOfRange operator t millis)

/-- The sum of numbers, or a date moved by it. -/
def add (values : List Value) : Checked Value :=
  if values.any isNullish then .ok .null
  else do
    match ← dateAmong none values, exactly? (· + ·) 0 values with
    | none, some n => return .int n
    | none, none => return .double (inDoubles .add .zero values)
    | some t, some n => shift "$add" t n.toInt true
    | some t, none => shift "$add" t (← millisOf "$add" (.double (inDoubles .add .zero values))) true

def subtract (a b : Value) : Checked Value :=
  if a.isNullish || b.isNullish then .ok .null
  else match a, b with
    | .date t, .date u => .ok (.int (Int64.ofInt (t.millisSince u)))
    | .date t, .int n => shift "$subtract" t n.toInt false
    | .date t, .double x => do shift "$subtract" t (← millisOf "$subtract" (.double x)) false
    | .int m, .int n =>
      match int64? (m.toInt - n.toInt) with
      | some d => .ok (.int d)
      | none => .ok (.double ((doubleOfInt m).sub (doubleOfInt n)))
    | a, b => do
      let x ← a.expectDouble "$subtract"
      let y ← b.expectDouble "$subtract"
      return .double (x.sub y)

def multiply (values : List Value) : Checked Value :=
  if values.any isNullish then .ok .null
  else match values.find? (!·.isNumber) with
    | some v => .error (.wrongType "$multiply" "numbers" v)
    | none => match exactly? (· * ·) 1 values with
      | some n => .ok (.int n)
      | none => .ok (.double (inDoubles .mul (.ofNat 1) values))

def divide (a b : Value) : Checked Value :=
  if a.isNullish || b.isNullish then .ok .null
  else do
    let x ← a.expectDouble "$divide"
    let y ← b.expectDouble "$divide"
    if y.isZero then .error (.divideByZero "$divide") else .ok (.double (x.div y))

/-- The remainder of the quotient truncated toward zero. -/
def modulo (a b : Value) : Checked Value :=
  if a.isNullish || b.isNullish then .ok .null
  else match a, b with
    | .int m, .int n =>
      if n = 0 then .error (.divideByZero "$mod") else .ok (.int (Int64.ofInt (m.toInt.tmod n.toInt)))
    | a, b => do
      let x ← a.expectDouble "$mod"
      let y ← b.expectDouble "$mod"
      if y.isZero then .error (.divideByZero "$mod") else .ok (.double (x.rem y))

/-- An integer power that fits in 64 bits. Exponents above 64 matter only by their parity, and only for
    the bases 0, 1 and -1. -/
def integerPower? (base exponent : Int) : Option Int64 :=
  if exponent < 0 ∨ UInt32.size ≤ exponent then none
  else if exponent ≤ 64 then int64? (base.pow exponent.toNat)
  else if base.natAbs ≤ 1 then int64? (base.pow (64 + exponent.toNat % 2))
  else none

def pow (a b : Value) : Checked Value :=
  if a.isNullish || b.isNullish then .ok .null
  else do
    let x ← a.expectDouble "$pow"
    let y ← b.expectDouble "$pow"
    if x.isZero && y.lt .zero then .error .zeroToNegativePower
    else match a, b with
      | .int m, .int n => match integerPower? m.toInt n.toInt with
        | some power => .ok (.int power)
        | none => .ok (.double (x.pow y))
      | _, _ => .ok (.double (x.pow y))

def sqrt (v : Value) : Checked Value :=
  if v.isNullish then .ok .null
  else do
    let x ← v.expectDouble "$sqrt"
    if x.lt .zero then .error .negativeRoot else .ok (.double x.sqrt)

def abs : Value → Checked Value
  | .missing | .null => .ok .null
  | .int n => match int64? n.toInt.natAbs with
    | some n => .ok (.int n)
    | none => .ok (.double (doubleOfInt n).abs)
  | .double x => .ok (.double x.abs)
  | v => .error (.wrongType "$abs" "a number" v)

/-- A rounding to whole numbers, which leaves integers alone. -/
def toWhole (operator : String) (f : Double → Double) : Value → Checked Value
  | .missing | .null => .ok .null
  | .int n => .ok (.int n)
  | .double x => .ok (.double (f x))
  | v => .error (.wrongType operator "a number" v)

/-- `f` on the number scaled by a power of ten, scaled back. -/
def atPlaces (f : Double → Double) (places : Int) (x : Double) : Double :=
  let unit := (Double.ofNat 10).powNat places.natAbs
  if 0 ≤ places then (f (x.mul unit)).div unit else (f (x.div unit)).mul unit

/-- A rounding to decimal places, or to tens and hundreds for negative places. -/
def toPlaces (operator : String) (f : Double → Double) (values : List Value) : Checked Value :=
  match values with
  | [] => .error (.roundArguments operator 0)
  | v :: rest => do
    if 1 < rest.length then throw (.roundArguments operator values.length)
    if values.any isNullish then return .null
    let places ← match rest with
      | p :: _ => p.expectInt operator
      | [] => pure 0
    if places < -20 ∨ 100 < places then throw (.placesOutOfRange operator places)
    match v with
    | .int n => if 0 ≤ places then return .int n else return .int (clampDouble (atPlaces f places (doubleOfInt n)))
    | .double x => if x.isFinite then return .double (atPlaces f places x) else return .double x
    | v => throw (.wrongType operator "a number" v)

def exp (v : Value) : Checked Value :=
  if v.isNullish then .ok .null else do return .double (← v.expectDouble "$exp").exp

def logarithm (operator : String) (f : Double → Double) (v : Value) : Checked Value :=
  if v.isNullish then .ok .null
  else do
    let x ← v.expectDouble operator
    if x.lt .zero || x.isZero then .error (.logOfNonPositive operator x) else .ok (.double (f x))

def operators : List (String × Operator) :=
  [("$add", .variadic add), ("$subtract", .binary "$subtract" subtract), ("$multiply", .variadic multiply),
    ("$divide", .binary "$divide" divide), ("$mod", .binary "$mod" modulo), ("$pow", .binary "$pow" pow),
    ("$sqrt", .unary "$sqrt" sqrt), ("$abs", .unary "$abs" abs),
    ("$ceil", .unary "$ceil" (toWhole "$ceil" .ceil)), ("$floor", .unary "$floor" (toWhole "$floor" .floor)),
    ("$round", .variadic (toPlaces "$round" .round)), ("$trunc", .variadic (toPlaces "$trunc" .trunc)),
    ("$exp", .unary "$exp" exp), ("$ln", .unary "$ln" (logarithm "$ln" .ln)),
    ("$log10", .unary "$log10" (logarithm "$log10" .log10))]

end DocQuery.Number
