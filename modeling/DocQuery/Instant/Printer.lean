import DocQuery.Instant

/-!
Text of dates: the form of the internet standard, with milliseconds or with as many digits as needed,
and free formats made of `%` tokens.
-/

namespace DocQuery

/-- The decimal digits of `n`, with zeros in front up to `width`. -/
def paddedDigits (width n : Nat) : List Char :=
  let digits := Nat.toDigits 10 n
  List.replicate (width - digits.length) '0' ++ digits

/-- As `paddedDigits`, with a minus sign that counts as one place. -/
def paddedInt (width : Nat) (n : Int) : List Char :=
  if n < 0 then '-' :: paddedDigits (width - 1) n.natAbs else paddedDigits width n.natAbs

namespace Instant

/-- Years of four digits stand as they are; the others carry a sign. -/
def yearText (year : Int) : List Char :=
  if 0 ≤ year ∧ year ≤ 9999 then paddedDigits 4 year.toNat
  else if year < 0 then paddedInt 5 year
  else '+' :: paddedDigits 4 year.toNat

/-- Date and time of UTC, with a leap second as second 60, and nanoseconds in it. -/
def dateTimeText (t : LocalTime) : List Char :=
  let second := if billion ≤ t.nanos then t.second + 1 else t.second
  yearText t.date.year ++ '-' :: paddedDigits 2 t.date.month ++ '-' :: paddedDigits 2 t.date.day
    ++ 'T' :: paddedDigits 2 t.hour ++ ':' :: paddedDigits 2 t.minute ++ ':' :: paddedDigits 2 second

/-- The text with milliseconds, as dates are written in JSON. -/
def toText (t : Instant) : String :=
  String.ofList (dateTimeText (.ofInstant t 0) ++ '.' :: paddedDigits 3 (t.nanos % billion / 1000000) ++ ['Z'])

/-- A fraction of no, three, six or nine digits, the fewest that lose nothing. -/
def fractionText (nanos : Nat) : List Char :=
  if nanos = 0 then []
  else if nanos % 1000000 = 0 then '.' :: paddedDigits 3 (nanos / 1000000)
  else if nanos % 1000 = 0 then '.' :: paddedDigits 6 (nanos / 1000)
  else '.' :: paddedDigits 9 nanos

/-- The text with its whole fraction and a numeric offset, as dates are written in messages. -/
def toFullText (t : Instant) : String :=
  String.ofList (dateTimeText (.ofInstant t 0) ++ fractionText (t.nanos % billion) ++ "+00:00".toList)

end Instant

namespace LocalTime

/-- Why a format cannot be used. -/
inductive FormatFault where
  | openToken
  | unknownToken (token : Char)
deriving DecidableEq

/-- What a token shows: `%Y %m %d %H %M %S %L %j %u %%`. -/
def token? (t : LocalTime) : Char → Option (List Char)
  | 'Y' => some (paddedInt 4 t.date.year)
  | 'm' => some (paddedDigits 2 t.date.month)
  | 'd' => some (paddedDigits 2 t.date.day)
  | 'H' => some (paddedDigits 2 t.hour)
  | 'M' => some (paddedDigits 2 t.minute)
  | 'S' => some (paddedDigits 2 t.second)
  | 'L' => some (paddedDigits 3 t.millisecond)
  | 'j' => some (paddedDigits 3 t.dayOfYear)
  | 'u' => some (Nat.toDigits 10 t.isoDayOfWeek)
  | '%' => some ['%']
  | _ => none

def formatChars (t : LocalTime) : List Char → Except FormatFault (List Char)
  | [] => .ok []
  | ['%'] => .error .openToken
  | '%' :: token :: rest =>
    match t.token? token with
    | some text => (formatChars t rest).map (text ++ ·)
    | none => .error (.unknownToken token)
  | c :: rest => (formatChars t rest).map (c :: ·)

def format (t : LocalTime) (pattern : String) : Except FormatFault String :=
  (t.formatChars pattern.toList).map String.ofList

/-- The format of a date that names none. -/
def defaultFormat : String := "%Y-%m-%dT%H:%M:%S.%LZ"

end LocalTime

end DocQuery
