import DocQuery.Fault
import DocQuery.Pattern.Parser
import DocQuery.Value.Order
import DocQuery.Value.Type

/-!
Schemas of values.

A schema is a set of constraints: on the type, on the size of numbers, texts and arrays, on the fields of
objects, and on the values below through further schemas. `violations` lists everything that breaks a
constraint, in a fixed order that is not the order in which the schema was written.
-/

namespace DocQuery

structure Schema where
  /-- The value must be of one of these types. -/
  types : Option (List ValueType) := none
  /-- The value must be equal to one of these. -/
  allowed : Option (List Value) := none
  minimum : Option Double := none
  maximum : Option Double := none
  minLength : Option Nat := none
  maxLength : Option Nat := none
  pattern : Option Pattern := none
  minItems : Option Nat := none
  maxItems : Option Nat := none
  items : Option Schema := none
  required : List String := []
  properties : List (String × Schema) := []
  /-- No fields but those of `properties`. -/
  closed : Bool := false

namespace Schema

/-! ### Reading -/

def countOf (keyword : String) (v : Value) : Checked Nat :=
  match v.toInt? with
  | some n => if 0 ≤ n.toInt then .ok n.toInt.toNat else .error (.schemaNotCount keyword)
  | none => .error (.schemaNotCount keyword)

def numberOf (keyword : String) (v : Value) : Checked Double :=
  match v.toDouble? with
  | some x => .ok x
  | none => .error (.schemaNotNumber keyword)

def typeOf (keyword : String) : Value → Checked ValueType
  | .string name => match ValueType.ofSchemaName? name with
    | some t => .ok t
    | none => .error (.schemaUnknownType name)
  | _ => .error (.schemaTypeNotString keyword)

/-- One type or an array of types. -/
def typesOf (keyword : String) : Value → Checked (List ValueType)
  | .array entries => entries.mapM (typeOf keyword)
  | v => do return [← typeOf keyword v]

def fieldNamesOf : Value → Checked (List String)
  | .array entries => entries.mapM fun
    | .string name => .ok name
    | _ => .error .requiredNotString
  | _ => .error .requiredNotArray

def patternOf : Value → Checked Pattern
  | .string text => match Pattern.parse? text with
    | some p => .ok p
    | none => .error (.schemaPattern text)
  | _ => .error .schemaPatternNotString

def allowedOf : Value → Checked (List Value)
  | .array values => .ok values
  | _ => .error .enumNotArray

def closedOf : Value → Checked Bool
  | .bool additional => .ok !additional
  | _ => .error .additionalNotBool

mutual

/-- The schema that a value writes. -/
def ofValue : Value → Checked Schema
  | .object keywords => ofKeywords keywords {}
  | _ => .error .schemaNotObject

/-- Adds the constraints of some keywords to those that are there. -/
def ofKeywords : List (String × Value) → Schema → Checked Schema
  | [], schema => .ok schema
  | (keyword, v) :: rest, schema => do
    let schema : Schema ← match keyword with
      | "type" | "bsonType" => do
        let types ← typesOf keyword v
        pure { schema with types := some (schema.types.getD [] ++ types) }
      | "required" => do pure { schema with required := ← fieldNamesOf v }
      | "properties" => do pure { schema with properties := ← propertiesOf v }
      | "minimum" => do pure { schema with minimum := some (← numberOf keyword v) }
      | "maximum" => do pure { schema with maximum := some (← numberOf keyword v) }
      | "pattern" => do pure { schema with pattern := some (← patternOf v) }
      | "enum" => do pure { schema with allowed := some (← allowedOf v) }
      | "minLength" => do pure { schema with minLength := some (← countOf keyword v) }
      | "maxLength" => do pure { schema with maxLength := some (← countOf keyword v) }
      | "minItems" => do pure { schema with minItems := some (← countOf keyword v) }
      | "maxItems" => do pure { schema with maxItems := some (← countOf keyword v) }
      | "additionalProperties" => do pure { schema with closed := ← closedOf v }
      | "items" => do pure { schema with items := some (← ofValue v) }
      | "description" | "title" => pure schema
      | keyword => throw (.schemaUnknownKeyword keyword)
    ofKeywords rest schema

def propertiesOf : Value → Checked (List (String × Schema))
  | .object fields => ofFields fields
  | _ => .error .propertiesNotObject

def ofFields : List (String × Value) → Checked (List (String × Schema))
  | [] => .ok []
  | (field, v) :: rest => do
    let schema ← (ofValue v).mapError (.inProperty field)
    return (field, schema) :: (← ofFields rest)

end

/-! ### Checking -/

/-- What breaks a constraint. -/
inductive Breach where
  | wrongType (expected : List ValueType)
  | notAllowed
  | belowMinimum (bound : Double)
  | aboveMaximum (bound : Double)
  | tooShort
  | tooLong
  | unmatched
  | tooFewItems (found least : Nat)
  | tooManyItems (found most : Nat)
  | absent
  | additional

/-- A breach, and the path of the place where it is found. -/
structure Violation where
  place : String
  breach : Breach

/-- The words for a violation; a value without a path is called the document. -/
def Violation.message (v : Violation) : String :=
  let subject := if v.place.isEmpty then "document" else "'" ++ v.place ++ "'"
  match v.breach with
  | .wrongType expected => subject ++ " expected type " ++ " or ".intercalate (expected.map ValueType.schemaName)
  | .notAllowed => subject ++ " value not in allowed enum values"
  | .belowMinimum bound => subject ++ " is below the minimum " ++ bound.toText
  | .aboveMaximum bound => subject ++ " is above the maximum " ++ bound.toText
  | .tooShort => subject ++ " is shorter than minLength"
  | .tooLong => subject ++ " is longer than maxLength"
  | .unmatched => subject ++ " does not match required pattern"
  | .tooFewItems found least =>
    subject ++ " has " ++ toString found ++ " items, minimum required is " ++ toString least
  | .tooManyItems found most =>
    subject ++ " has " ++ toString found ++ " items, maximum allowed is " ++ toString most
  | .absent => "Missing required field '" ++ v.place ++ "'"
  | .additional => "Additional property '" ++ v.place ++ "' is not allowed"

/-- The path of a part of the value at a path. -/
def within (place part : String) : String := if place.isEmpty then part else place ++ "." ++ part

def breachIf (broken : Bool) (place : String) (breach : Breach) : List Violation :=
  if broken then [⟨place, breach⟩] else []

def typeViolations (types : Option (List ValueType)) (place : String) (v : Value) : List Violation :=
  match types with
  | some types => breachIf (!types.any (·.describes v)) place (.wrongType types)
  | none => []

def allowedViolations (allowed : Option (List Value)) (place : String) (v : Value) : List Violation :=
  match allowed with
  | some values => breachIf (!values.any (Value.equal · v)) place .notAllowed
  | none => []

def numberViolations (minimum maximum : Option Double) (place : String) (v : Value) : List Violation :=
  match v.toDouble? with
  | some x =>
    (minimum.toList.flatMap fun bound => breachIf (x.lt bound) place (.belowMinimum bound)) ++
      (maximum.toList.flatMap fun bound => breachIf (bound.lt x) place (.aboveMaximum bound))
  | none => []

def textViolations (minLength maxLength : Option Nat) (pattern : Option Pattern) (place : String) (v : Value) :
    List Violation :=
  match v with
  | .string text =>
    breachIf (minLength.any (text.length < ·)) place .tooShort ++
      breachIf (maxLength.any (· < text.length)) place .tooLong ++
      breachIf (pattern.any fun p => !p.isMatch text) place .unmatched
  | _ => []

def countViolations (minItems maxItems : Option Nat) (place : String) (v : Value) : List Violation :=
  match v with
  | .array items =>
    (minItems.toList.flatMap fun least => breachIf (items.length < least) place (.tooFewItems items.length least)) ++
      (maxItems.toList.flatMap fun most => breachIf (most < items.length) place (.tooManyItems items.length most))
  | _ => []

def requiredViolations (required : List String) (place : String) (v : Value) : List Violation :=
  match v with
  | .object fields => required.flatMap fun field => breachIf (!Fields.contains fields field) (within place field) .absent
  | _ => []

def closedViolations (closed : Bool) (properties : List String) (place : String) (v : Value) : List Violation :=
  match v with
  | .object fields => (Fields.names fields).flatMap fun field =>
      breachIf (closed && !properties.contains field) (within place field) .additional
  | _ => []

mutual

def violations : Schema → String → Value → List Violation
  | { types, allowed, minimum, maximum, minLength, maxLength, pattern, minItems, maxItems, items, required,
      properties, closed }, place, v =>
    typeViolations types place v ++ allowedViolations allowed place v ++ numberViolations minimum maximum place v
      ++ textViolations minLength maxLength pattern place v ++ countViolations minItems maxItems place v
      ++ itemViolations items place v ++ requiredViolations required place v
      ++ propertyViolations properties place v ++ closedViolations closed (Fields.names properties) place v

def itemViolations : Option Schema → String → Value → List Violation
  | some schema, place, .array items =>
    items.zipIdx.flatMap fun (item, i) => violations schema (within place (toString i)) item
  | _, _, _ => []

def propertyViolations : List (String × Schema) → String → Value → List Violation
  | (field, schema) :: rest, place, .object fields =>
    (match Fields.get? fields field with
      | some v => violations schema (within place field) v
      | none => []) ++ propertyViolations rest place (.object fields)
  | _, _, _ => []

end

/-- The first violation of the value at a path. -/
def check (s : Schema) (place : String) (v : Value) : Option Violation := (s.violations place v).head?

/-- Does the value keep all constraints? -/
def accepts (s : Schema) (v : Value) : Bool := (s.violations "" v).isEmpty

end Schema

end DocQuery
