import DocQuery.Calendar

/-!
Instants of UTC with nanoseconds.

A leap second has no number of its own: it is the last second of its minute with a billion nanoseconds
or more. The range is that of the years from -262143 to 262142.
-/

namespace DocQuery

namespace Instant

/-- The day of the first of January 1970. -/
def epochDay : Int := Calendar.firstDay 1970

def minSecond : Int := (Calendar.firstDay (-262143) - epochDay) * 86400

def maxSecond : Int := (Calendar.firstDay 262143 - epochDay) * 86400 - 1

def billion : Nat := 1000000000

end Instant

/-- A number of seconds since the start of 1970 and nanoseconds into that second. -/
structure Instant where
  seconds : Int
  nanos : Nat
  inRange : Instant.minSecond ≤ seconds ∧ seconds ≤ Instant.maxSecond
  nanos_lt : nanos < 2 * Instant.billion
deriving DecidableEq

namespace Instant

/-- The instant with these parts, if it is in range. -/
def ofParts? (seconds : Int) (nanos : Nat) : Option Instant :=
  if h : (minSecond ≤ seconds ∧ seconds ≤ maxSecond) ∧ nanos < 2 * billion then
    some ⟨seconds, nanos, h.1, h.2⟩
  else none

def compare (a b : Instant) : Ordering :=
  (Ord.compare a.seconds b.seconds).then (Ord.compare a.nanos b.nanos)

/-- Is it inside a leap second? -/
def inLeapSecond (t : Instant) : Bool := billion ≤ t.nanos

/-! ### Milliseconds -/

/-- Milliseconds since the start of 1970, rounded down. -/
def millis (t : Instant) : Int := t.seconds * 1000 + t.nanos / 1000000

def ofMillis? (millis : Int) : Option Instant :=
  ofParts? (millis / 1000) ((millis % 1000).toNat * 1000000)

/-- Moves an ordinary instant by a number of nanoseconds. -/
def shiftOrdinary (seconds nanos : Int) (wholeSeconds moreNanos : Int) : Option Instant :=
  let total := nanos + moreNanos
  ofParts? (seconds + wholeSeconds + total / billion) (total % billion).toNat

/-- Moves an instant by milliseconds, if the result is in range. Inside a leap second a move by less than
    a second that does not reach its end stays in it; any other move leaves it, forward as from the same
    second and backward as from the next. -/
def shift? (t : Instant) (millis : Int) : Option Instant :=
  let seconds := millis.tdiv 1000
  let nanos := millis.tmod 1000 * 1000000
  let own : Int := t.nanos
  if t.inLeapSecond then
    if 0 < seconds ∨ (0 < nanos ∧ 2 * billion - nanos ≤ own) then
      shiftOrdinary t.seconds (own - billion) seconds nanos
    else if seconds < 0 then shiftOrdinary (t.seconds + 1) (own - billion) seconds nanos
    else ofParts? t.seconds (own + nanos).toNat
  else shiftOrdinary t.seconds own seconds nanos

/-- The day since the start of year 1 that an instant lies in, and the second of that day. -/
def dayNumber (seconds : Int) : Int := seconds / 86400 + epochDay

def secondOfDay (seconds : Int) : Nat := (seconds % 86400).toNat

/-- The time from `b` to `a` in milliseconds, toward zero. A leap second inside the span counts when the
    instant that lies in it has the earlier time of day. -/
def millisSince (a b : Instant) : Int :=
  let leap : Int :=
    match Ord.compare (secondOfDay a.seconds) (secondOfDay b.seconds) with
    | .gt => if b.inLeapSecond then 1 else 0
    | .lt => if a.inLeapSecond then -1 else 0
    | .eq => 0
  let nanos := (a.seconds - b.seconds + leap) * billion + ((a.nanos : Int) - b.nanos)
  nanos.tdiv 1000000

end Instant

/-! ### Time of day -/

/-- What a calendar and a clock show at one place. -/
structure LocalTime where
  day : Int
  date : Calendar.Date
  hour : Nat
  minute : Nat
  second : Nat
  nanos : Nat

namespace LocalTime

/-- The clock at an instant where it is ahead of UTC by `offset` seconds. -/
def ofInstant (t : Instant) (offset : Int) : LocalTime :=
  let seconds := t.seconds + offset
  let day := Instant.dayNumber seconds
  let ofDay := Instant.secondOfDay seconds
  ⟨day, Calendar.dateOf day, ofDay / 3600, ofDay / 60 % 60, ofDay % 60, t.nanos⟩

/-- Milliseconds in the second; a leap second shows the last one. -/
def millisecond (t : LocalTime) : Nat := min (t.nanos / 1000000) 999

/-- The day of the year, from 1. -/
def dayOfYear (t : LocalTime) : Nat := Calendar.daysIntoYear t.day + 1

/-- The day of the week, from 1 for Sunday. -/
def dayOfWeek (t : LocalTime) : Nat := (Calendar.daysSinceMonday t.day + 1) % 7 + 1

/-- The day of the week, from 1 for Monday. -/
def isoDayOfWeek (t : LocalTime) : Nat := Calendar.daysSinceMonday t.day + 1

end LocalTime

end DocQuery
