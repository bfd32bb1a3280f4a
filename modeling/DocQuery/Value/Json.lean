import DocQuery.Instant.Printer
import DocQuery.Instant.Reader
import DocQuery.Json.Parser
import DocQuery.Json.Printer
import DocQuery.Value

/-!
Values as JSON.

A date is an object with the one key `$date` and either its standard text or its milliseconds. An
object of that form that names no date stays an object.
-/

namespace DocQuery.Value

/-- The date that the members of an object write. -/
def dateOfMembers? : List (String × Json) → Option Instant
  | [("$date", .string s)] => Instant.ofStandard? s
  | [("$date", .integer n)] => if n ≤ Int64.maxValue.toInt then Instant.ofMillis? n else none
  | _ => none

mutual

def ofJson : Json → Value
  | .null => null
  | .bool b => bool b
  | .integer n => match int64? n with
    | some i => int i
    | none => double (Double.ofInt n)
  | .double x => double x
  | .string s => string s
  | .array items => array (ofItems items)
  | .object members => match dateOfMembers? members with
    | some t => date t
    | none => object (Fields.ofList (ofMembers members))

def ofItems : List Json → List Value
  | [] => []
  | item :: rest => ofJson item :: ofItems rest

def ofMembers : List (String × Json) → List (String × Value)
  | [] => []
  | (key, value) :: rest => (key, ofJson value) :: ofMembers rest

end

mutual

/-- Missing is written as null, and so are the doubles that JSON has no number for. -/
def toJson : Value → Json
  | missing | null => .null
  | bool b => .bool b
  | int n => .integer n.toInt
  | double x => if x.isFinite then .double x else .null
  | string s => .string s
  | date t => .object [("$date", .string t.toText)]
  | array items => .array (toItems items)
  | object fields => .object (Fields.ofList (toMembers fields))

def toItems : List Value → List Json
  | [] => []
  | item :: rest => toJson item :: toItems rest

def toMembers : List (String × Value) → List (String × Json)
  | [] => []
  | (name, value) :: rest => (name, toJson value) :: toMembers rest

end

/-- Compact JSON text, as values are shown in messages. -/
def jsonText (v : Value) : String := v.toJson.render

/-- The value that a JSON text writes. -/
def parse? (text : String) : Option Value := (Json.parse? text).map ofJson

end DocQuery.Value
