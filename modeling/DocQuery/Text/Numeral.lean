/-!
Decimal numerals: runs of the characters that `Char.isDigit` accepts.
-/

namespace DocQuery.Text

/-- The number that decimal digits write; 0 where there is none. -/
def naturalOf (digits : List Char) : Nat := Nat.ofDigitChars 10 digits 0

end DocQuery.Text
