import DocQuery.Double

/-!
Decimal text of doubles.

Reading rounds the decimal exactly once. Writing takes the fewest digits that read back as the same
double and, among those, the decimal nearest to it; a layout says where positional notation ends and how
the rest is spelled.
-/

namespace DocQuery

/-- The number `digits * 10 ^ exponent`. -/
structure Decimal where
  digits : Nat
  exponent : Int
deriving DecidableEq, Repr

/-- Which of two equally near decimals is written. -/
inductive Tie where
  | toEven
  | up
deriving DecidableEq

/-- The power of ten. -/
def tenTo (n : Nat) : Nat := Nat.pow 10 n

namespace Double

/-! ### Reading -/

/-- The double nearest to `digits * 10 ^ exponent`. Powers that are out of range on any account are not
    computed: above `10 ^ 310` the result is infinite, and below half of the least unit it is zero. -/
def ofDecimal (negative : Bool) (digits : Nat) (exponent : Int) : Double :=
  if digits = 0 then zero negative
  else if 310 < exponent then .infinite negative
  else if 0 ≤ exponent then ofUnits negative (digits * tenTo exponent.toNat * one)
  else if (digits.log2 + 1 + 1075 : Int) ≤ 3 * -exponent then zero negative
  else ofUnits negative (digits * one) (tenTo (-exponent).toNat)

/-! ### The fewest digits -/

/-- The decimals that read back as the magnitude with `code` lie between `low` and `high`, in quarters
    of a unit; the ends belong to them iff the significand is even. -/
structure Neighbourhood where
  low : Nat
  value : Nat
  high : Nat
  closed : Bool

def neighbourhood (code : Nat) : Neighbourhood :=
  let ulp := 1 <<< exponentOf code
  let value := 4 * unitsOf code
  let below := if significandOf code = 1 <<< 52 ∧ 0 < exponentOf code then ulp else 2 * ulp
  ⟨value - below, value, value + 2 * ulp, significandOf code % 2 = 0⟩

/-- Does `num / den`, in quarters of a unit, read back? -/
def Neighbourhood.contains (n : Neighbourhood) (num den : Nat) : Bool :=
  if n.closed then n.low * den ≤ num && num ≤ n.high * den
  else n.low * den < num && num < n.high * den

/-- A grid of decimals: the multiples of `num / den` quarters of a unit, one for each count of the last place. -/
def grid (exponent : Int) : Nat × Nat :=
  if 0 ≤ exponent then (tenTo exponent.toNat * (4 * one), 1) else (4 * one, tenTo (-exponent).toNat)

/-- The multiple of `10 ^ exponent` that is nearest to the value among the two beside it, if it reads back. -/
def Neighbourhood.onGrid? (n : Neighbourhood) (tie : Tie) (exponent : Int) : Option Decimal :=
  let (step, den) := grid exponent
  let below := n.value * den / step
  let above := below + 1
  let toBelow := n.value * den - below * step
  let toAbove := above * step - n.value * den
  let nearer :=
    if toBelow < toAbove then below
    else if toAbove < toBelow then above
    else match tie with
      | .toEven => below + below % 2
      | .up => above
  let other := if nearer = below then above else below
  if n.contains (nearer * step) den then some ⟨nearer, exponent⟩
  else if n.contains (other * step) den then some ⟨other, exponent⟩
  else none

/-- Is `num / den` at least `10 ^ exponent`? -/
def reachesTenTo (num den : Nat) (exponent : Int) : Bool :=
  if 0 ≤ exponent then tenTo exponent.toNat * den ≤ num else den ≤ num * tenTo (-exponent).toNat

/-- The exponent of the leading decimal digit of `num / den > 0`, searched from an estimate by `log2`
    that is never too high and at most two too low. -/
def leadingExponent (num den : Nat) : Int :=
  let estimate := ((num.log2 : Int) - den.log2 - 1) * 30103 / 100000 - 1
  if reachesTenTo num den (estimate + 3) then estimate + 3
  else if reachesTenTo num den (estimate + 2) then estimate + 2
  else if reachesTenTo num den (estimate + 1) then estimate + 1
  else estimate

/-- Drops the zeros at the end of the digits. -/
def trimZeros : Nat → Decimal → Decimal
  | 0, d => d
  | fuel + 1, d =>
    if d.digits ≠ 0 ∧ d.digits % 10 = 0 then trimZeros fuel ⟨d.digits / 10, d.exponent + 1⟩ else d

/-- The decimal with the fewest digits that reads back as the magnitude with `code`; seventeen digits
    always suffice. -/
def shortest (tie : Tie) (code : Nat) : Decimal :=
  if code = 0 then ⟨0, 0⟩
  else
    let n := neighbourhood code
    let leading := leadingExponent n.value (4 * one)
    let grids := (List.range 18).map fun k : Nat => leading - (k : Int)
    match grids.findSome? (n.onGrid? tie) with
    | some d => trimZeros 20 d
    | none => ⟨0, 0⟩

/-! ### Layouts -/

structure Layout where
  tie : Tie
  /-- The exponents of the leading digit that are written positionally; all of them if absent. -/
  positional : Option (Int × Int)
  /-- Does a whole number in positional notation end in `.0`? -/
  pointZero : Bool
  /-- Does a positive exponent carry a sign? -/
  plusSign : Bool

/-- Digits with the point where the exponent puts it. -/
def positional (pointZero : Bool) (digits : List Char) (exponent : Int) : List Char :=
  if 0 ≤ exponent then
    digits ++ List.replicate exponent.toNat '0' ++ (if pointZero then ['.', '0'] else [])
  else
    let places := (-exponent).toNat
    if places < digits.length then
      digits.take (digits.length - places) ++ '.' :: digits.drop (digits.length - places)
    else ['0', '.'] ++ List.replicate (places - digits.length) '0' ++ digits

/-- One digit, the others behind a point, and the exponent of the first. -/
def scientific (plusSign : Bool) (digits : List Char) (exponent : Int) : List Char :=
  let fraction := match digits.tail with
    | [] => []
    | rest => '.' :: rest
  let leading := exponent + digits.length - 1
  let sign := if leading < 0 then ['-'] else if plusSign then ['+'] else []
  digits.take 1 ++ fraction ++ 'e' :: sign ++ Nat.toDigits 10 leading.natAbs

def magnitudeText (layout : Layout) (code : Nat) : List Char :=
  let d := shortest layout.tie code
  let digits := Nat.toDigits 10 d.digits
  let leading := d.exponent + digits.length - 1
  let isPositional := match layout.positional with
    | none => true
    | some (least, above) => code = 0 || (least ≤ leading && leading < above)
  if isPositional then positional layout.pointZero digits d.exponent
  else scientific layout.plusSign digits d.exponent

def text (layout : Layout) : Double → String
  | .nan => "NaN"
  | .infinite negative => if negative then "-inf" else "inf"
  | .finite negative code => String.ofList ((if negative then ['-'] else []) ++ magnitudeText layout code)

/-- Plain text never has an exponent, and whole numbers have no point. -/
def plain : Layout := ⟨.up, none, false, false⟩

/-- Keys tell a double from an integer by its point or exponent. -/
def keyLayout : Layout := ⟨.up, some (-4, 16), true, false⟩

/-- JSON numbers keep a point or an exponent, so that they read back as doubles. -/
def jsonLayout : Layout := ⟨.toEven, some (-5, 16), true, true⟩

def toText (x : Double) : String := x.text plain

end Double

end DocQuery
