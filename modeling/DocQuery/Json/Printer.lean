import DocQuery.Double.Decimal
import DocQuery.Json

/-!
Compact JSON text: no blanks, the short escapes for `"`, `\` and the common control characters, other
control characters by their code, and every other character as it is.
-/

namespace DocQuery.Json

/-- The four hexadecimal digits of a code of 16 bits. -/
def fourHexDigits (code : Nat) : List Char :=
  [12, 8, 4, 0].map fun shift => Nat.digitChar ((code >>> shift) % 16)

def escapeChar (c : Char) : List Char :=
  if c = '"' then ['\\', '"']
  else if c = '\\' then ['\\', '\\']
  else if c = '\n' then ['\\', 'n']
  else if c = '\r' then ['\\', 'r']
  else if c = '\t' then ['\\', 't']
  else if c.toNat = 8 then ['\\', 'b']
  else if c.toNat = 12 then ['\\', 'f']
  else if c.toNat < 32 then '\\' :: 'u' :: fourHexDigits c.toNat
  else [c]

def quote (s : String) : String := "\"" ++ String.ofList (s.toList.flatMap escapeChar) ++ "\""

mutual

def render : Json → String
  | .null => "null"
  | .bool b => if b then "true" else "false"
  | .integer n => toString n
  | .double x => if x.isFinite then x.text Double.jsonLayout else "null"
  | .string s => quote s
  | .array items => "[" ++ ",".intercalate (renderItems items) ++ "]"
  | .object members => "\x7b" ++ ",".intercalate (renderMembers members) ++ "\x7d"

def renderItems : List Json → List String
  | [] => []
  | item :: rest => render item :: renderItems rest

def renderMembers : List (String × Json) → List String
  | [] => []
  | (key, value) :: rest => (quote key ++ ":" ++ render value) :: renderMembers rest

end

end DocQuery.Json
