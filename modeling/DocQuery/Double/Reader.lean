import DocQuery.Double.Decimal
import DocQuery.Text.Numeral

/-!
Numbers as people write them: a sign, digits with a point anywhere among them, an exponent; or the names
of infinity and NaN in any case.
-/

namespace DocQuery

open Text (naturalOf)

/-- Splits off a sign; `true` means minus. -/
def splitSign : List Char → Bool × List Char
  | '-' :: rest => (true, rest)
  | '+' :: rest => (false, rest)
  | text => (false, text)

/-- An integer with an optional sign. -/
def intOfText? (text : String) : Option Int :=
  let (negative, digits) := splitSign text.toList
  if digits.isEmpty || !digits.all Char.isDigit then none
  else some (if negative then -(naturalOf digits : Int) else naturalOf digits)

/-- The exponent that ends a number; 0 if nothing is left. -/
def exponentOfText? : List Char → Option Int
  | [] => some 0
  | mark :: rest =>
    if mark = 'e' || mark = 'E' then intOfText? (String.ofList rest) else none

/-- The decimal that a text without a sign writes: digits, at most one point, and an exponent. -/
def Decimal.ofText? (text : List Char) : Option Decimal :=
  let whole := text.takeWhile Char.isDigit
  let rest := text.dropWhile Char.isDigit
  let (fraction, rest) := match rest with
    | '.' :: rest => (rest.takeWhile Char.isDigit, rest.dropWhile Char.isDigit)
    | rest => ([], rest)
  if whole.isEmpty && fraction.isEmpty then none
  else (exponentOfText? rest).map fun exponent =>
    ⟨naturalOf (whole ++ fraction), exponent - fraction.length⟩

namespace Double

def ofUnsigned? (negative : Bool) (text : List Char) : Option Double :=
  (Decimal.ofText? text).map fun d => ofDecimal negative d.digits d.exponent

def ofName? (negative : Bool) (text : List Char) : Option Double :=
  match String.ofList (text.map Char.toLower) with
  | "inf" | "infinity" => some (.infinite negative)
  | "nan" => some .nan
  | _ => none

def ofText? (text : String) : Option Double :=
  let (negative, unsigned) := splitSign text.toList
  (ofUnsigned? negative unsigned).or (ofName? negative unsigned)

end Double

end DocQuery
