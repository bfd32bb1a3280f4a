/-!
Finding, splitting and replacing inside a text. Occurrences are taken from the left and do not overlap.
-/

namespace DocQuery.Text

/-- The parts between the occurrences of a delimiter that is not empty. `skip` counts the characters of
    the current occurrence that are still to pass, and `part` is the current part in reverse. -/
def splitFrom (delimiter : List Char) (skip : Nat) (part : List Char) : List Char → List (List Char)
  | [] => [part.reverse]
  | c :: rest =>
    match skip with
    | skip + 1 => splitFrom delimiter skip part rest
    | 0 =>
      if delimiter.isPrefixOf (c :: rest) then
        part.reverse :: splitFrom delimiter (delimiter.length - 1) [] rest
      else splitFrom delimiter 0 (c :: part) rest

def split (text delimiter : String) : List String :=
  (splitFrom delimiter.toList 0 [] text.toList).map String.ofList

/-- The text with the occurrences of `find` replaced, at most `count` of them if a count is given. -/
def replaceFrom (find replacement : List Char) (count : Option Nat) (skip : Nat) : List Char → List Char
  | [] => []
  | c :: rest =>
    match skip with
    | skip + 1 => replaceFrom find replacement count skip rest
    | 0 =>
      if count ≠ some 0 ∧ find.isPrefixOf (c :: rest) then
        replacement ++ replaceFrom find replacement (count.map (· - 1)) (find.length - 1) rest
      else c :: replaceFrom find replacement count 0 rest

/-- The empty text occurs before every character and at the end. -/
def replaceEmpty (replacement : List Char) (count : Option Nat) : List Char → List Char
  | [] => if count = some 0 then [] else replacement
  | c :: rest =>
    if count = some 0 then c :: rest
    else replacement ++ c :: replaceEmpty replacement (count.map (· - 1)) rest

def replace (text find replacement : String) (count : Option Nat) : String :=
  String.ofList <|
    if find.isEmpty then replaceEmpty replacement.toList count text.toList
    else replaceFrom find.toList replacement.toList count 0 text.toList

/-- The least position from `start` on where `needle` stands and ends by `stop`. -/
def indexIn? (text needle : List Char) (start stop : Nat) : Option Nat :=
  ((List.range (stop + 1)).drop start).find? fun i =>
    i + needle.length ≤ stop && needle.isPrefixOf (text.drop i)

end DocQuery.Text
