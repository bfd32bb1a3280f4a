import DocQuery.Text.Numeral

/-!
Timezones with a fixed offset from UTC.
-/

namespace DocQuery.Timezone

open Text (naturalOf)

/-- The offset that digits for hours, or for hours and minutes, name; it is less than a day. -/
def magnitude? (digits : List Char) : Option Int :=
  let seconds : Option Int := match digits with
    | [a, b] => some (naturalOf [a, b] * 3600)
    | [a, b, c, d] => some (naturalOf [a, b] * 3600 + naturalOf [c, d] * 60)
    | _ => none
  if digits.all Char.isDigit then seconds.filter (· < 86400) else none

/-- The offset in seconds: none for the names of UTC; else a sign and digits, in which colons do not count. -/
def offset? (name : String) : Option Int :=
  if name = "UTC" ∨ name = "GMT" ∨ name = "Z" ∨ name = "Etc/UTC" then some 0
  else match name.toList with
    | '+' :: rest => magnitude? (rest.filter (· ≠ ':'))
    | '-' :: rest => (magnitude? (rest.filter (· ≠ ':'))).map (- ·)
    | _ => none

end DocQuery.Timezone
