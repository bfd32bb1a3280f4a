import DocQuery.Double

/-!
Logarithms, the exponential function and powers.

Each is summed in fixed point with far more bits than a double holds, and the sum is rounded once. A
fixed-point number is an integer that counts steps of `2 ^ -320`.
-/

namespace DocQuery.Double

/-- The number of fractional bits. -/
def fractionBits : Nat := 320

def fixedOne : Int := 1 <<< fractionBits

def fixedMul (x y : Int) : Int := (x * y) >>> fractionBits

def fixedDiv (x y : Int) : Int := (x <<< fractionBits) / y

/-- The double nearest to a fixed-point number. -/
def ofFixed (x : Int) : Double := ofIntUnits (x * one) (1 <<< fractionBits)

/-- The sum of `power * square ^ k / (2 k + 1)` over the first `fuel` values of `k`, from `k = start`. -/
def atanhSeries (square : Int) : Nat → Nat → Int → Int
  | 0, _, _ => 0
  | fuel + 1, k, power => power / (2 * k + 1) + atanhSeries square fuel (k + 1) (fixedMul power square)

/-- The natural logarithm of `m` with `1 ≤ m ≤ 2`, by `ln m = 2 * atanh ((m - 1) / (m + 1))`. -/
def fixedLogMantissa (m : Int) : Int :=
  let z := fixedDiv (m - fixedOne) (m + fixedOne)
  2 * atanhSeries (fixedMul z z) 110 0 z

def fixedLogTwo : Int := fixedLogMantissa (2 * fixedOne)

/-- The natural logarithm of a positive number of units. -/
def fixedLog (units : Nat) : Int :=
  let exponent := units.log2
  fixedLogMantissa (((units : Int) <<< fractionBits) >>> exponent) + (exponent - unitBits) * fixedLogTwo

/-- The sum of `term * x ^ k * n! / (n + k)!` over the first `fuel` values of `k`. -/
def expSeries (x : Int) : Nat → Nat → Int → Int
  | 0, _, _ => 0
  | fuel + 1, n, term => term + expSeries x fuel (n + 1) (fixedMul term x / (n + 1))

/-- The double nearest to `e ^ x`. Beyond a thousand the result is out of range. -/
def ofFixedExp (negative : Bool) (x : Int) : Double :=
  if 1000 * fixedOne < x then .infinite negative
  else if x < -1000 * fixedOne then zero negative
  else
    let exponent := x / fixedLogTwo
    let mantissa := (expSeries (x - exponent * fixedLogTwo) 90 0 fixedOne).toNat
    let shift := exponent + unitBits
    if 0 ≤ shift then ofUnits negative (mantissa <<< shift.toNat) (1 <<< fractionBits)
    else ofUnits negative mantissa (1 <<< (fractionBits + (-shift).toNat))

def exp : Double → Double
  | .nan => .nan
  | .infinite negative => if negative then zero else .infinite false
  | x@(.finite ..) => ofFixedExp false ((x.units <<< fractionBits) >>> unitBits)

/-- The natural logarithm; NaN below zero. -/
def ln : Double → Double
  | .nan => .nan
  | .infinite negative => if negative then .nan else .infinite false
  | .finite negative code =>
    if code.val = 0 then .infinite true
    else if negative then .nan
    else ofFixed (fixedLog (unitsOf code))

/-- The decimal logarithm; NaN below zero. -/
def log10 : Double → Double
  | .nan => .nan
  | .infinite negative => if negative then .nan else .infinite false
  | .finite negative code =>
    if code.val = 0 then .infinite true
    else if negative then .nan
    else ofFixed (fixedDiv (fixedLog (unitsOf code)) (fixedLog (10 * one)))

/-- Is it a finite odd whole number? -/
def isOdd (x : Double) : Bool := x.isIntegral && x.toInt % 2 != 0

/-- The power of a positive finite number of units, by `x ^ y = e ^ (y * ln x)`. -/
def powPositive (negative : Bool) (units : Nat) (y : Double) : Double :=
  ofFixedExp negative ((y.units * fixedLog units) >>> unitBits)

/-- `x` to the power `y`. The power 0 and the base 1 give 1 even with NaN; a negative base has a power
    only for a whole `y`, with a minus sign when `y` is odd; zeros and infinities give the limits. -/
def pow (x y : Double) : Double :=
  if y.isZero || x == ofNat 1 then ofNat 1
  else match x, y with
    | .nan, _ | _, .nan => .nan
    | x, .infinite falling =>
      let distance := x.abs.compare (ofNat 1)
      match distance, falling with
      | .eq, _ => ofNat 1
      | .gt, false | .lt, true => .infinite false
      | .gt, true | .lt, false => zero
    | .infinite negative, y =>
      if y.isNegative then zero (negative && y.isOdd) else .infinite (negative && y.isOdd)
    | .finite negative code, y =>
      if code.val = 0 then
        if y.isNegative then .infinite (negative && y.isOdd) else zero (negative && y.isOdd)
      else if negative && !y.isIntegral then .nan
      else powPositive (negative && y.isOdd) (unitsOf code) y

end DocQuery.Double
