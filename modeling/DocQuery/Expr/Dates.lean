import DocQuery.Expr.Basic
import DocQuery.Instant.Timezone

/-!
Operators on dates: their parts, their text, and dates from text or milliseconds.
-/

namespace DocQuery.Dates

open DocQuery.Value DocQuery.Expr

/-- The offset that a timezone argument names; without one, or with null, it is that of UTC. -/
def offset (operator : String) : Option Value → Checked Int
  | none | some .missing | some .null => .ok 0
  | some (.string name) =>
    match Timezone.offset? name with
    | some seconds => .ok seconds
    | none => .error (.unknownTimezone operator name)
  | some v => .error (.wrongType operator "a string timezone" v)

/-- A part of the local time of a date. The date stands alone, or under its name with a timezone. -/
def part (operator : String) (f : LocalTime → Int) : Operator := fun e s => do
  let (dateArgument, zoneArgument) ← match e with
    | .array _ _ [item] => pure (item, none)
    | .object _ _ fields =>
      if fields.any (·.1 == "date") then do
        let fields ← e.named operator ["date", "timezone"]
        pure (← required operator fields "date", Fields.get? fields "timezone")
      else pure (e, none)
    | e => pure (e, none)
  let zone ← match zoneArgument with
    | some z => (z.eval s).map some
    | none => pure none
  match ← dateArgument.eval s with
  | .missing | .null => return .null
  | .date t => return .int (Int64.ofInt (f (.ofInstant t (← offset operator zone))))
  | v => throw (.wrongType operator "a date" v)

def toText : Operator := fun e s => do
  let fields ← e.named "$dateToString" ["date", "format", "timezone", "onNull"]
  match ← (← required "$dateToString" fields "date").eval s with
  | .missing | .null =>
    match fields.get? "onNull" with
    | some e => e.eval s
    | none => return .null
  | .date t =>
    let pattern ← match ← evalOptional fields "format" s with
      | none => pure LocalTime.defaultFormat
      | some (.string pattern) => pure pattern
      | some v => throw (.wrongType "$dateToString" "a string format" v)
    let zone ← evalOptional fields "timezone" s
    let seconds ← offset "$dateToString" zone
    match (LocalTime.ofInstant t seconds).format pattern with
    | .ok text => return .string text
    | .error cause => throw (.dateFormat cause)
  | v => throw (.wrongType "$dateToString" "a date" v)

def ofMillis (millis : Int) : Checked Value :=
  match Instant.ofMillis? millis with
  | some t => .ok (.date t)
  | none => .error (.millisOutOfRange millis)

def toDate : Value → Checked Value
  | .missing | .null => .ok .null
  | .date t => .ok (.date t)
  | .int n => ofMillis n.toInt
  | .double x =>
    if x.isFinite then ofMillis (clampDouble x).toInt
    else .error (.wrongType "$toDate" "a string, number or date" (.double x))
  | .string s =>
    match Instant.ofText? s with
    | some t => .ok (.date t)
    | none => .error (.notDateText s)
  | v => .error (.wrongType "$toDate" "a string, number or date" v)

def operators : List (String × Operator) :=
  [("$year", part "$year" (·.date.year)), ("$month", part "$month" (·.date.month)),
    ("$dayOfMonth", part "$dayOfMonth" (·.date.day)), ("$dayOfWeek", part "$dayOfWeek" (·.dayOfWeek)),
    ("$dayOfYear", part "$dayOfYear" (·.dayOfYear)), ("$hour", part "$hour" (·.hour)),
    ("$minute", part "$minute" (·.minute)), ("$second", part "$second" (·.second)),
    ("$millisecond", part "$millisecond" (·.millisecond)), ("$dateToString", toText),
    ("$toDate", .unary "$toDate" toDate)]

end DocQuery.Dates
