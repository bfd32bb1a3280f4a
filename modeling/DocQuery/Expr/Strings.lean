import DocQuery.Expr.Relation
import DocQuery.Text.Search
import DocQuery.Unicode.Case

/-!
Operators on strings. Positions and lengths count characters.
-/

namespace DocQuery.Strings

open DocQuery.Value DocQuery.Expr

/-- All strings one after another; null as soon as one of them is null. -/
def concat : List Value → Checked Value
  | values => go values ""
where
  go : List Value → String → Checked Value
    | [], text => .ok (.string text)
    | v :: rest, text =>
      match v with
      | .missing | .null => .ok .null
      | .string s => go rest (text ++ s)
      | v => .error (.wrongType "$concat" "strings" v)

/-- The text of a string or a number; null and missing are empty. -/
def textOf (operator : String) : Value → Checked String
  | .missing | .null => .ok ""
  | .string s => .ok s
  | .int n => .ok (toString n.toInt)
  | .double x => .ok x.toText
  | v => .error (.wrongType operator "a string" v)

def mapText (operator : String) (f : String → String) (v : Value) : Checked Value := do
  return .string (f (← textOf operator v))

/-- The characters from `start` on, at most `length` of them unless it is negative. -/
def substring (v start length : Value) : Checked Value := do
  let text ← textOf "$substrCP" v
  let start ← start.expectInt "$substrCP"
  let length ← length.expectInt "$substrCP"
  if start < 0 then throw (.substringStart start)
  let rest := text.toList.drop start.toNat
  return .string (String.ofList (if length < 0 then rest else rest.take length.toNat))

def split (v delimiter : Value) : Checked Value :=
  if v.isNullish then .ok .null
  else do
    let text ← v.expectString "$split" "a string to split"
    let delimiter ← delimiter.expectString "$split" "a string delimiter"
    if delimiter.isEmpty then throw .emptyDelimiter
    return .array ((Text.split text delimiter).map .string)

def length (v : Value) : Checked Value := do
  let text ← v.expectString "$strLenCP" "a string"
  return .int (Int64.ofInt text.toList.length)

/-- The text without the characters of a kind at its start, its end or both. -/
def strip (atStart atEnd : Bool) (kind : Char → Bool) (text : String) : String :=
  let chars := text.toList
  let chars := if atStart then chars.dropWhile kind else chars
  let chars := if atEnd then (chars.reverse.dropWhile kind).reverse else chars
  String.ofList chars

/-- Strips the characters of the argument `chars`, or else white space and NUL. -/
def trim (operator : String) (atStart atEnd : Bool) : Operator := fun e s => do
  let fields ← e.named operator ["input", "chars"]
  let input ← (← required operator fields "input").eval s
  if input.isNullish then return .null
  let text ← input.expectString operator "a string input"
  match ← evalOptional fields "chars" s with
  | none => return .string (strip atStart atEnd (fun c => Unicode.isWhiteSpace c || c.toNat = 0) text)
  | some .missing | some .null => return .null
  | some (.string chars) => return .string (strip atStart atEnd (chars.toList.contains ·) text)
  | some v => throw (.wrongType operator "a string for 'chars'" v)

/-- Replaces the first occurrence or all of them. -/
def replace (operator : String) (count : Option Nat) : Operator := fun e s => do
  let fields ← e.named operator ["input", "find", "replacement"]
  let input ← (← required operator fields "input").eval s
  let find ← (← required operator fields "find").eval s
  let replacement ← (← required operator fields "replacement").eval s
  if input.isNullish || find.isNullish || replacement.isNullish then return .null
  let input ← input.expectString operator "string arguments"
  let find ← find.expectString operator "string arguments"
  let replacement ← replacement.expectString operator "string arguments"
  return .string (Text.replace input find replacement count)

/-- A bound of a search; a negative one counts as 0. -/
def bound (default : Nat) : Option Value → Checked Nat
  | none => .ok default
  | some v => do return (← v.expectInt "$indexOfCP").toNat

/-- The position of the first occurrence between two bounds, or -1. -/
def indexOf (v needle : Value) (bounds : List Value) : Checked Value :=
  if v.isNullish then .ok .null
  else do
    let text ← v.expectString "$indexOfCP" "a string"
    let needle ← needle.expectString "$indexOfCP" "a string to search for"
    let chars := text.toList
    let start ← bound 0 bounds[0]?
    let stop ← bound chars.length bounds[1]?
    match Text.indexIn? chars needle.toList start (min stop chars.length) with
    | some i => return .int (Int64.ofInt i)
    | none => return .int (-1)

/-- Compares two texts in lower case. -/
def compareCaseless (a b : Value) : Checked Value := do
  let x ← textOf "$strcasecmp" a
  let y ← textOf "$strcasecmp" b
  return .int (Relation.sign (compare (Unicode.toLower x) (Unicode.toLower y)))

def operators : List (String × Operator) :=
  [("$concat", .variadic concat), ("$toLower", .unary "$toLower" (mapText "$toLower" Unicode.toLower)),
    ("$toUpper", .unary "$toUpper" (mapText "$toUpper" Unicode.toUpper)),
    ("$substr", .ternary "$substrCP" substring), ("$substrCP", .ternary "$substrCP" substring),
    ("$split", .binary "$split" split), ("$strLenCP", .unary "$strLenCP" length),
    ("$trim", trim "$trim" true true), ("$ltrim", trim "$ltrim" true false), ("$rtrim", trim "$rtrim" false true),
    ("$replaceOne", replace "$replaceOne" (some 1)), ("$replaceAll", replace "$replaceAll" none),
    ("$indexOfCP", .ranged "$indexOfCP" 2 indexOf), ("$strcasecmp", .binary "$strcasecmp" compareCaseless)]

end DocQuery.Strings
