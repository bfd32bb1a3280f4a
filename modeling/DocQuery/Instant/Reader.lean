import DocQuery.Instant
import DocQuery.Text.Numeral
import DocQuery.Text.Quoted

/-!
Reading dates.

The strict form is that of the internet standard: fixed numbers of digits, a `T` or a space between date
and time, any number of fractional digits, and an offset. The loose forms are lists of items; there a
number may have fewer digits, blanks may precede it, and the time is that of UTC.
-/

namespace DocQuery.Instant

open Text (naturalOf)

/-- Exactly `count` digits and what follows. -/
def digits? (count : Nat) (text : List Char) : Option (Nat × List Char) :=
  let digits := text.take count
  if digits.length = count ∧ digits.all Char.isDigit then some (naturalOf digits, text.drop count) else none

/-- The rest of a text that starts with one of the characters. -/
def skip? (wanted : List Char) : List Char → Option (List Char)
  | c :: rest => if wanted.contains c then some rest else none
  | [] => none

/-- A fraction after its point: at least one digit, of which the first nine count. -/
def fraction? (text : List Char) : Option (Nat × List Char) :=
  let digits := text.takeWhile Char.isDigit
  let kept := digits.take 9
  if digits.isEmpty then none
  else some (naturalOf (kept ++ List.replicate (9 - kept.length) '0'), text.dropWhile Char.isDigit)

/-- A fraction if the text goes on with a point. -/
def optionalFraction? : List Char → Option (Nat × List Char)
  | '.' :: rest => fraction? rest
  | text => some (0, text)

/-- The parts of a date and time as they were written. -/
structure Parts where
  year : Int := 0
  month : Nat := 0
  day : Nat := 0
  hour : Nat := 0
  minute : Nat := 0
  second : Nat := 0
  nanos : Nat := 0

/-- The instant that the parts name where the clock is ahead of UTC by `offset` seconds. Second 60 is
    the leap second after second 59. -/
def Parts.toInstant? (p : Parts) (offset : Int) : Option Instant := do
  let day ← Calendar.dayNumber? ⟨p.year, p.month, p.day⟩
  if p.hour < 24 ∧ p.minute < 60 ∧ p.second ≤ 60 then
    let second := min p.second 59
    let nanos := if p.second = 60 then p.nanos + billion else p.nanos
    ofParts? ((day - epochDay) * 86400 + p.hour * 3600 + p.minute * 60 + second - offset) nanos
  else none

/-! ### The strict form -/

/-- An offset: `Z`, or a sign, two digits for hours below 24, a colon and two digits for minutes. -/
def offset? : List Char → Option (Int × List Char)
  | [] => none
  | c :: rest =>
    if c = 'Z' ∨ c = 'z' then some (0, rest)
    else if c = '+' ∨ c = '-' ∨ c = '−' then do
      let (hours, rest) ← digits? 2 rest
      let rest ← skip? [':'] rest
      let (minutes, rest) ← digits? 2 rest
      if hours < 24 ∧ minutes < 60 then
        let seconds : Int := hours * 3600 + minutes * 60
        some (if c = '+' then seconds else -seconds, rest)
      else none
    else none

def ofStandard? (text : String) : Option Instant := do
  let (year, rest) ← digits? 4 text.toList
  let rest ← skip? ['-'] rest
  let (month, rest) ← digits? 2 rest
  let rest ← skip? ['-'] rest
  let (day, rest) ← digits? 2 rest
  let rest ← skip? ['T', 't', ' '] rest
  let (hour, rest) ← digits? 2 rest
  let rest ← skip? [':'] rest
  let (minute, rest) ← digits? 2 rest
  let rest ← skip? [':'] rest
  let (second, rest) ← digits? 2 rest
  let (nanos, rest) ← optionalFraction? rest
  let (offset, rest) ← offset? rest
  if rest.isEmpty then Parts.toInstant? ⟨year, month, day, hour, minute, second, nanos⟩ offset else none

/-! ### The loose forms -/

inductive Item where
  | year
  | month
  | day
  | hour
  | minute
  | second
  | fraction
  | blanks
  | literal (c : Char)

/-- One to `width` digits, with blanks in front. -/
def shortNumber? (width : Nat) (text : List Char) : Option (Nat × List Char) :=
  let text := text.dropWhile Unicode.isWhiteSpace
  let digits := (text.take width).takeWhile Char.isDigit
  if digits.isEmpty then none else some (naturalOf digits, text.drop digits.length)

/-- A year: up to four digits, or a sign and any number of digits. -/
def year? (text : List Char) : Option (Int × List Char) :=
  match text.dropWhile Unicode.isWhiteSpace with
  | '-' :: rest =>
    let digits := rest.takeWhile Char.isDigit
    if digits.isEmpty then none else some (-(naturalOf digits : Int), rest.dropWhile Char.isDigit)
  | '+' :: rest =>
    let digits := rest.takeWhile Char.isDigit
    if digits.isEmpty then none else some (naturalOf digits, rest.dropWhile Char.isDigit)
  | text => (shortNumber? 4 text).map fun (n, rest) => (n, rest)

def Item.read? (item : Item) (p : Parts) (text : List Char) : Option (Parts × List Char) :=
  match item with
  | .year => (year? text).map fun (n, rest) => ({ p with year := n }, rest)
  | .month => (shortNumber? 2 text).map fun (n, rest) => ({ p with month := n }, rest)
  | .day => (shortNumber? 2 text).map fun (n, rest) => ({ p with day := n }, rest)
  | .hour => (shortNumber? 2 text).map fun (n, rest) => ({ p with hour := n }, rest)
  | .minute => (shortNumber? 2 text).map fun (n, rest) => ({ p with minute := n }, rest)
  | .second => (shortNumber? 2 text).map fun (n, rest) => ({ p with second := n }, rest)
  | .fraction => (optionalFraction? text).map fun (n, rest) => ({ p with nanos := n }, rest)
  | .blanks => some (p, text.dropWhile Unicode.isWhiteSpace)
  | .literal c => (skip? [c] text).map fun rest => (p, rest)

/-- The items one after another, to the end of the text. -/
def readItems (p : Parts) (text : List Char) : List Item → Option Parts
  | [] => if text.isEmpty then some p else none
  | item :: items =>
    match item.read? p text with
    | some (p, rest) => readItems p rest items
    | none => none

def dateItems : List Item := [.year, .literal '-', .month, .literal '-', .day]

def minuteItems : List Item := [.hour, .literal ':', .minute]

def secondItems : List Item := minuteItems ++ [.literal ':', .second, .fraction]

/-- The loose forms in the order in which they are tried. -/
def looseForms : List (List Item) :=
  [dateItems ++ .literal 'T' :: secondItems,
    dateItems ++ .blanks :: secondItems,
    dateItems ++ .literal 'T' :: minuteItems,
    dateItems]

/-- The date that a text writes, in the strict form or else in a loose one; blanks around it do not count. -/
def ofText? (text : String) : Option Instant :=
  let text := Text.trim text
  match ofStandard? text with
  | some t => some t
  | none => looseForms.findSome? fun items => do
    let parts ← readItems {} text.toList items
    parts.toInstant? 0

end DocQuery.Instant
