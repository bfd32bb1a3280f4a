/-!
Sets of code points, as lists of disjoint ascending ranges.

A table is written as text, one hexadecimal code or range for each member: `41-5a aa b5`.
-/

namespace DocQuery.Unicode

/-- The value of a hexadecimal digit written in lower case. -/
def hexDigit? (c : Char) : Option Nat :=
  if c.isDigit then some (c.toNat - '0'.toNat)
  else if 'a' ≤ c && c ≤ 'f' then some (c.toNat - 'a'.toNat + 10)
  else none

/-- The number that a run of hexadecimal digits writes; other characters are skipped. -/
def hexNumber (digits : List Char) : Nat :=
  digits.foldl (fun n c => match hexDigit? c with
    | some d => 16 * n + d
    | none => n) 0

/-- The words of a table, which stand between spaces and line ends. -/
def words (table : String) : List (List Char) :=
  (table.toList.map fun c => if c = '\n' then ' ' else c).splitOn ' ' |>.filter (!·.isEmpty)

abbrev CodeSet := List (Nat × Nat)

namespace CodeSet

/-- Reads a table: each word is a code or two codes with a dash between. -/
def ofText (table : String) : CodeSet :=
  (words table).map fun word =>
    match word.splitOn '-' with
    | [low, high] => (hexNumber low, hexNumber high)
    | _ => (hexNumber word, hexNumber word)

def contains (set : CodeSet) (code : Nat) : Bool :=
  set.any fun (low, high) => low ≤ code && code ≤ high

/-- The last Unicode code point. -/
def lastCode : Nat := 0x10ffff

/-- Adds a range to a list of ranges sorted by their starts, merging what overlaps or touches. -/
def insertRange (range : Nat × Nat) : CodeSet → CodeSet
  | [] => [range]
  | next :: rest =>
    if range.2 + 1 < next.1 then range :: next :: rest
    else if next.2 + 1 < range.1 then next :: insertRange range rest
    else insertRange (min range.1 next.1, max range.2 next.2) rest

/-- The same set with its ranges sorted and merged. -/
def normalize (set : CodeSet) : CodeSet := set.foldr insertRange []

/-- The gaps between sorted disjoint ranges, from the code `start`. -/
def gaps (start : Nat) : CodeSet → CodeSet
  | [] => if start ≤ lastCode then [(start, lastCode)] else []
  | (low, high) :: rest => if start < low then (start, low - 1) :: gaps (high + 1) rest else gaps (high + 1) rest

def complement (set : CodeSet) : CodeSet := gaps 0 set.normalize

end CodeSet

end DocQuery.Unicode
