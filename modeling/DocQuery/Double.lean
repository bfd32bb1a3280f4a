/-!
Binary64 numbers as exact values.

A finite double is a sign and a code: the exponent and fraction fields of its binary form read as one
number. The code of a larger magnitude is the larger code, and the magnitude is a whole number of units
of `2 ^ -1074`, the least positive double. Every operation computes the exact result in units and rounds
it once, to nearest with ties to even; there is one NaN.
-/

namespace DocQuery

/-- The quotient `num / den` rounded to the nearest integer, a half to the even neighbour. -/
def roundQuotient (num den : Nat) : Nat :=
  let floor := num / den
  let twice := 2 * (num % den)
  if twice < den then floor
  else if den < twice then floor + 1
  else floor + floor % 2

/-- The number of codes of finite magnitudes; as a code it stands for infinity. -/
def finiteCodes : Nat := 2047 <<< 52

inductive Double where
  | nan
  | infinite (negative : Bool)
  | finite (negative : Bool) (code : Fin finiteCodes)
deriving DecidableEq

namespace Double

/-! ### Magnitudes -/

/-- The power of two that counts the units in 1. -/
def unitBits : Nat := 1074

/-- How many units make 1. -/
def one : Nat := 1 <<< unitBits

/-- The power of two that scales the significand of a code; zero for subnormal numbers. -/
def exponentOf (code : Nat) : Nat := (code >>> 52) - 1

def significandOf (code : Nat) : Nat := code - (exponentOf code <<< 52)

/-- The magnitude with this code, in units. -/
def unitsOf (code : Nat) : Nat := significandOf code <<< exponentOf code

/-- The code nearest to `num / den` units. The significand keeps 53 bits, or fewer below the least
    normal number; a significand that rounds up to 54 bits lands on the next exponent by itself. -/
def nearestCode (num den : Nat) : Nat :=
  let exponent := (num / den).log2 - 52
  (exponent <<< 52) + roundQuotient num (den <<< exponent)

/-- The double nearest to `num / den` units, with the given sign. -/
def ofUnits (negative : Bool) (num : Nat) (den : Nat := 1) : Double :=
  if h : nearestCode num den < finiteCodes then .finite negative ⟨nearestCode num den, h⟩
  else .infinite negative

def zero (negative : Bool := false) : Double := .finite negative ⟨0, by decide⟩

instance : Inhabited Double := ⟨zero⟩

/-- The exact value of a finite double in units; zero for the others. -/
def units : Double → Int
  | .finite negative code => if negative then -(unitsOf code : Int) else unitsOf code
  | _ => 0

/-- The double nearest to a whole number of units over `den`; `negativeZero` is the sign of a zero result. -/
def ofIntUnits (units : Int) (den : Nat := 1) (negativeZero : Bool := false) : Double :=
  if units = 0 then zero negativeZero else ofUnits (units < 0) units.natAbs den

/-- The double nearest to an integer. -/
def ofInt (n : Int) : Double := ofIntUnits (n * one)

def ofNat (n : Nat) : Double := ofInt n

/-! ### Classes -/

def isNaN : Double → Bool
  | .nan => true
  | _ => false

def isFinite : Double → Bool
  | .finite .. => true
  | _ => false

/-- Is the sign bit set? A NaN counts as positive. -/
def isNegative : Double → Bool
  | .nan => false
  | .infinite negative | .finite negative _ => negative

def isZero : Double → Bool
  | .finite _ code => code.val == 0
  | _ => false

/-- Is it a finite whole number? -/
def isIntegral : Double → Bool
  | .finite _ code => unitsOf code % one == 0
  | _ => false

/-! ### Order -/

/-- A number that grows with the value: the code with the sign of the double. Both zeros have rank 0. -/
def rank : Double → Int
  | .nan => 0
  | .infinite negative => if negative then -(finiteCodes : Int) else finiteCodes
  | .finite negative code => if negative then -(code.val : Int) else code.val

/-- The total order of the library: NaN equals itself and lies below every other number. -/
def compare (x y : Double) : Ordering :=
  match x.isNaN, y.isNaN with
  | true, true => .eq
  | true, false => .lt
  | false, true => .gt
  | false, false => Ord.compare x.rank y.rank

/-- Arithmetic comparison; false when either side is NaN. -/
def lt (x y : Double) : Bool := !x.isNaN && !y.isNaN && x.rank < y.rank

/-! ### Arithmetic -/

def neg : Double → Double
  | .nan => .nan
  | .infinite negative => .infinite (!negative)
  | .finite negative code => .finite (!negative) code

def abs : Double → Double
  | .nan => .nan
  | .infinite _ => .infinite false
  | .finite _ code => .finite false code

/-- The sum of two finite doubles; an exact zero is negative only if both terms are. -/
def add : Double → Double → Double
  | .nan, _ | _, .nan => .nan
  | .infinite s, .infinite t => if s = t then .infinite s else .nan
  | .infinite s, .finite .. => .infinite s
  | .finite .., .infinite t => .infinite t
  | x@(.finite s _), y@(.finite t _) => ofIntUnits (x.units + y.units) 1 (s && t)

def sub (x y : Double) : Double := x.add y.neg

def mul : Double → Double → Double
  | .nan, _ | _, .nan => .nan
  | .infinite s, .infinite t => .infinite (s ^^ t)
  | .infinite s, .finite t code | .finite t code, .infinite s =>
    if code.val = 0 then .nan else .infinite (s ^^ t)
  | .finite s a, .finite t b => ofUnits (s ^^ t) (unitsOf a * unitsOf b) one

def div : Double → Double → Double
  | .nan, _ | _, .nan => .nan
  | .infinite _, .infinite _ => .nan
  | .infinite s, .finite t _ => .infinite (s ^^ t)
  | .finite s _, .infinite t => zero (s ^^ t)
  | .finite s a, .finite t b =>
    if b.val = 0 then if a.val = 0 then .nan else .infinite (s ^^ t)
    else ofUnits (s ^^ t) (unitsOf a * one) (unitsOf b)

/-- The remainder of the quotient truncated toward zero; it has the sign of the dividend. -/
def rem : Double → Double → Double
  | .nan, _ | _, .nan | .infinite _, _ => .nan
  | x@(.finite ..), .infinite _ => x
  | .finite s a, .finite _ b => if b.val = 0 then .nan else ofUnits s (unitsOf a % unitsOf b)

/-- The largest `r` with `r * r ≤ n`, by one bit of the root for each two bits of `n`. -/
def floorSqrt (n : Nat) : Nat :=
  go (n.log2 / 2 + 1) 0
where
  go : Nat → Nat → Nat
    | 0, root => root
    | bit + 1, root =>
      let candidate := root + (1 <<< bit)
      go bit (if candidate * candidate ≤ n then candidate else root)

/-- The nearest double to the square root. The integer root of the scaled number is exact to half a unit;
    a last odd bit stands for the digits that it drops, so no tie is seen where there is none. -/
def sqrt : Double → Double
  | .nan => .nan
  | .infinite negative => if negative then .nan else .infinite false
  | .finite negative code =>
    if code.val = 0 then .finite negative code
    else if negative then .nan
    else
      let square := unitsOf code * one * 4
      let root := floorSqrt square
      ofUnits false (2 * root + if root * root = square then 0 else 1) 4

/-! ### Integers -/

/-- A whole number of ones as a double of the given sign; the sign shows on a zero. -/
def ofWhole (negative : Bool) (n : Nat) : Double := ofUnits negative (n * one)

/-- Drops the fraction. -/
def trunc : Double → Double
  | .finite negative code => ofWhole negative (unitsOf code / one)
  | x => x

/-- The largest whole number that is not above. -/
def floor : Double → Double
  | .finite negative code =>
    let units := unitsOf code
    ofWhole negative (if negative then (units + (one - 1)) / one else units / one)
  | x => x

/-- The smallest whole number that is not below. -/
def ceil : Double → Double
  | .finite negative code =>
    let units := unitsOf code
    ofWhole negative (if negative then units / one else (units + (one - 1)) / one)
  | x => x

/-- The nearest whole number, a half away from zero. -/
def round : Double → Double
  | .finite negative code => ofWhole negative ((2 * unitsOf code + one) / (2 * one))
  | x => x

/-- The whole part of a finite double. -/
def toInt (x : Double) : Int := x.units.tdiv one

/-- `x` to a whole power by repeated squaring, each product rounded. -/
def powNat (x : Double) (n : Nat) : Double :=
  go n x (ofNat 1) n
where
  go : Nat → Double → Double → Nat → Double
    | 0, _, acc, _ => acc
    | fuel + 1, base, acc, n =>
      if n = 0 then acc
      else go fuel (base.mul base) (if n % 2 = 1 then acc.mul base else acc) (n / 2)

/-! ### Binary form -/

/-- The 64 bits of the binary form; the NaN is the quiet one. -/
def toBits : Double → Nat
  | .nan => finiteCodes + (1 <<< 51)
  | .infinite negative => (if negative then 1 <<< 63 else 0) + finiteCodes
  | .finite negative code => (if negative then 1 <<< 63 else 0) + code.val

end Double

end DocQuery
