/-!
The Gregorian calendar, extended to all years.

Days are counted from the first of January of year 1, which is day 0.
-/

namespace DocQuery.Calendar

structure Date where
  year : Int
  month : Nat
  day : Nat
deriving DecidableEq, Repr

def isLeapYear (year : Int) : Bool := year % 4 = 0 && (year % 100 ≠ 0 || year % 400 = 0)

/-- The number of the first day of a year. -/
def firstDay (year : Int) : Int :=
  let past := year - 1
  365 * past + past / 4 - past / 100 + past / 400

/-- The year that a day lies in: 146097 days make 400 years, so the mean year length gives the year or
    one of its neighbours. -/
def yearOf (day : Int) : Int :=
  let estimate := 400 * day / 146097 + 1
  if day < firstDay estimate then estimate - 1
  else if firstDay (estimate + 1) ≤ day then estimate + 1
  else estimate

def monthLengths (leap : Bool) : List Nat :=
  [31, if leap then 29 else 28, 31, 30, 31, 30, 31, 31, 30, 31, 30, 31]

/-- The month and the day in it of the day that comes `days` days after the first of `month`. -/
def monthAndDay (month : Nat) (days : Nat) : List Nat → Nat × Nat
  | [] => (month, days + 1)
  | length :: rest => if days < length then (month, days + 1) else monthAndDay (month + 1) (days - length) rest

/-- How many days of its year come before a day. -/
def daysIntoYear (day : Int) : Nat := (day - firstDay (yearOf day)).toNat

def dateOf (day : Int) : Date :=
  let year := yearOf day
  let (month, inMonth) := monthAndDay 1 (daysIntoYear day) (monthLengths (isLeapYear year))
  ⟨year, month, inMonth⟩

/-- The number of a date, if there is such a date. -/
def dayNumber? (date : Date) : Option Int :=
  let lengths := monthLengths (isLeapYear date.year)
  match lengths[date.month - 1]? with
  | some length =>
    let earlier : Nat := (lengths.take (date.month - 1)).foldl (· + ·) 0
    if 1 ≤ date.month ∧ 1 ≤ date.day ∧ date.day ≤ length then
      some (firstDay date.year + earlier + (date.day - 1))
    else none
  | none => none

/-- The days since the last Monday; day 0 was a Monday. -/
def daysSinceMonday (day : Int) : Nat := (day % 7).toNat

end DocQuery.Calendar
