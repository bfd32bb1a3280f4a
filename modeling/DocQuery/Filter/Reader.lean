import DocQuery.Filter

/-!
The filter that a value writes.
-/

namespace DocQuery

/-- Operators on the values that a path reaches. -/
inductive FieldOperator where
  | eq
  | ne
  | bound (b : Bound)
  | oneOf
  | noneOf
  | allOf
  | item
  | size
  | present
  | typed
  | regex
  | mod
  | bits (test : BitTest)
  | not

/-- Operators on whole documents. -/
inductive DocumentOperator where
  | and
  | or
  | nor
  | not
  | expr
  | jsonSchema
  | comment
  | text

def fieldOperators : List (String × FieldOperator) :=
  [("$eq", .eq), ("$ne", .ne), ("$gt", .bound .above), ("$gte", .bound .atLeast), ("$lt", .bound .below),
    ("$lte", .bound .atMost), ("$in", .oneOf), ("$nin", .noneOf), ("$all", .allOf), ("$elemMatch", .item),
    ("$size", .size), ("$exists", .present), ("$type", .typed), ("$regex", .regex), ("$mod", .mod),
    ("$bitsAllSet", .bits .allSet), ("$bitsAllClear", .bits .allClear), ("$bitsAnySet", .bits .anySet),
    ("$bitsAnyClear", .bits .anyClear), ("$not", .not)]

def documentOperators : List (String × DocumentOperator) :=
  [("$and", .and), ("$or", .or), ("$nor", .nor), ("$not", .not), ("$expr", .expr), ("$jsonSchema", .jsonSchema),
    ("$comment", .comment), ("$text", .text)]

def FieldOperator.ofName? (name : String) : Option FieldOperator := Fields.get? fieldOperators name

def DocumentOperator.ofName? (name : String) : Option DocumentOperator := Fields.get? documentOperators name

def BitTest.operatorName : BitTest → String
  | allSet => "$bitsAllSet"
  | allClear => "$bitsAllClear"
  | anySet => "$bitsAnySet"
  | anyClear => "$bitsAnyClear"

namespace Condition

/-- The condition for an argument, or the fault that the argument is. -/
def ofArgument {α : Type} (argument : Checked α) (condition : α → Condition) : Condition :=
  match argument with
  | .ok a => condition a
  | .error fault => refused fault

/-! ### Arguments -/

def lengthOf (v : Value) : Checked Nat :=
  match v.toInt? with
  | some n => if 0 ≤ n.toInt then .ok n.toInt.toNat else .error (.sizeNotCount v)
  | none => .error (.sizeNotCount v)

def typeOf (v : Value) : Checked ValueType :=
  match ValueType.ofAlias? v with
  | some t => .ok t
  | none => .error (.unknownTypeAlias v)

/-- One type or an array of types. -/
def typesOf : Value → Checked (List ValueType)
  | .array items => items.mapM typeOf
  | v => do return [← typeOf v]

/-- A pattern with options; each option is a letter, and they are set in front of the pattern. The process-wide memo of
    compiled patterns is left out: options and text are judged anew at each use, even where the memo would hold a
    pattern under the same `options/text`. -/
def compile (text options : String) : Checked Pattern :=
  match options.toList.find? fun c => !(['i', 'm', 's', 'x'].contains c) with
  | some c => .error (.regexFlag c)
  | none =>
    let flags := if options.isEmpty then "" else "(?" ++ options ++ ")"
    match Pattern.parse? (flags ++ text) with
    | some p => .ok p
    | none => .error (.regexPattern text)

/-- A pattern as a string, or as an object with its options. -/
def patternOf : Value → Checked Pattern
  | .string text => compile text ""
  | .object fields =>
    match Fields.get? fields "$regex", Fields.get? fields "$options" with
    | some (.string text), some (.string options) => compile text options
    | some (.string text), none => compile text ""
    | some (.string _), some _ => .error .regexOptionsNotString
    | _, _ => .error .regexNotString
  | _ => .error .regexNotString

/-- A number for a division, cut to an integer. -/
def wholeOf (v : Value) : Checked Int64 :=
  match v.toDouble? with
  | some x => if x.isFinite then .ok (clampDouble x) else .error (.modNotNumber v)
  | none => .error (.modNotNumber v)

/-- A divisor, which is not zero, and what is to be left. -/
def divisionOf : Value → Checked (Int64 × Int64)
  | .array [divisor, rest] => do
    let divisor ← wholeOf divisor
    let rest ← wholeOf rest
    if divisor = 0 then throw .modDivisorZero
    return (divisor, rest)
  | _ => .error .modNotPair

def positionOf (operator : String) (whole v : Value) : Checked Nat :=
  match v.toInt? with
  | some n => if 0 ≤ n.toInt ∧ n.toInt < UInt32.size then .ok n.toInt.toNat else .error (.bitsNotMask operator whole)
  | none => .error (.bitsNotMask operator whole)

/-- The positions of bits, listed or as the bits that are set in a mask. -/
def positionsOf (operator : String) (v : Value) : Checked (List Nat) :=
  match v with
  | .array items => items.mapM (positionOf operator v)
  | v => match v.toInt? with
    | some mask =>
      if 0 ≤ mask.toInt then .ok ((List.range 63).filter (isBitSet mask)) else .error (.bitsNotMask operator v)
    | none => .error (.bitsNotMask operator v)

/-- The argument of a pattern together with its options. -/
def withOptions (options : Option Value) (v : Value) : Value :=
  match options with
  | some options => .object [("$regex", v), ("$options", options)]
  | none => v

/-! ### Operator objects

Options are no operator: they belong to the pattern beside them. -/

/-- The names of the operators. -/
def operatorNames (fields : Document) : List String := fields.names.filter (· ≠ "$options")

/-- Are there options without a pattern? -/
def lacksPattern (fields : Document) : Bool := fields.contains "$options" && !fields.contains "$regex"

/-- Some operators with their conditions, all of which must hold. -/
def together (fields : Document) (conditions : List Condition) : List Condition :=
  if lacksPattern fields then [refused .optionsWithoutRegex] else conditions

/-- One operator with its condition, and no other. -/
def alone (fields : Document) (conditions : List Condition) : Condition :=
  match together fields conditions with
  | [condition] => condition
  | _ => refused (.operatorCount (operatorNames fields))

/-- Are there only operators on values? -/
def areOperators (fields : Document) : Bool :=
  !fields.isEmpty && fields.names.all fun name => name = "$options" || (FieldOperator.ofName? name).isSome

end Condition

mutual

/-- The condition that an operator makes of its argument. -/
def Condition.ofOperator : FieldOperator → Value → Condition
  | .eq, v => .equals v
  | .ne, v => .not (.equals v)
  | .bound b, v => .bounded b v
  | .oneOf, .array values => .oneOf values
  | .oneOf, _ => .refused (.operandNotArray "$in")
  | .noneOf, .array values => .not (.oneOf values)
  | .noneOf, _ => .invalid (.operandNotArray "$nin") (.operandNotArray "$in")
  | .allOf, .array values => .allOf (Condition.ofWanted values)
  | .allOf, _ => .allOfNoArray
  | .item, .object fields =>
    if Condition.areOperators fields then
      .item (Condition.together fields (Condition.ofOperators (Fields.get? fields "$options") fields))
    else .itemObject (.all (Filter.ofFields fields))
  | .item, _ => .itemNoObject
  | .size, v => .ofArgument (Condition.lengthOf v) .size
  | .present, v => .present v.isTruthy
  | .typed, v => .ofArgument (Condition.typesOf v) .typed
  | .regex, v => .ofArgument (Condition.patternOf v) .pattern
  | .mod, v => .ofArgument (Condition.divisionOf v) fun (d, r) => .remainder d r
  | .bits test, v => .ofArgument (Condition.positionsOf test.operatorName v) (.bits test)
  | .not, .object fields =>
    .not (Condition.alone fields (Condition.ofOperators (Fields.get? fields "$options") fields))
  | .not, _ => .refused .notWithoutDocument

/-- The conditions of all operators of an object. -/
def Condition.ofOperators (options : Option Value) : List (String × Value) → List Condition
  | [] => []
  | (name, v) :: rest =>
    if name = "$options" then Condition.ofOperators options rest
    else
      (match FieldOperator.ofName? name with
        | some .regex => .ofArgument (Condition.patternOf (Condition.withOptions options v)) .pattern
        | some operator => Condition.ofOperator operator v
        | none => .refused (.unknownFieldOperator name)) :: Condition.ofOperators options rest

/-- Wanted values are to be found as they are, or are conditions on an item. -/
def Condition.ofWanted : List Value → List Condition
  | [] => []
  | .object [("$elemMatch", v)] :: rest => Condition.ofOperator .item v :: Condition.ofWanted rest
  | v :: rest => .equals v :: Condition.ofWanted rest

/-- A condition is an object of an operator; an object without operators and any other value is to be
    found as it is. -/
def Condition.ofValue : Value → Condition
  | .object fields =>
    if !fields.any (isOperatorName ·.1) then .equals (.object fields)
    else if !fields.all (isOperatorName ·.1) then .refused (.mixedCondition (Fields.names fields))
    else Condition.alone fields (Condition.ofOperators (Fields.get? fields "$options") fields)
  | v => .equals v

/-- The filter that a value writes. -/
def Filter.ofValue : Value → Filter
  | .object fields => .all (Filter.ofFields fields)
  | v => .refused (.filterNotObject v)

/-- Operators on the document, and paths with conditions. -/
def Filter.ofFields : List (String × Value) → List Filter
  | [] => []
  | (name, v) :: rest =>
    (if isOperatorName name then
      match DocumentOperator.ofName? name with
      | some .and => match Filter.ofArray? v with
        | some parts => .all parts
        | none => .refused (.clausesNotArray "$and")
      | some .or => match Filter.ofArray? v with
        | some parts => .any parts
        | none => .refused (.clausesNotArray "$or")
      | some .nor => match Filter.ofArray? v with
        | some parts => .not (.any parts)
        | none => .invalid (.clausesNotArray "$nor") (.clausesNotArray "$or")
      | some .not => .not (Filter.ofValue v)
      | some .expr => .holds v
      | some .jsonSchema => match Schema.ofValue v with
        | .ok schema => .conforms schema
        | .error fault => .refused fault
      | some .comment => .all []
      | some .text => .text v
      | none => .refused (.unknownDocumentOperator name)
    else .field (Path.ofString name) (Condition.ofValue v)) :: Filter.ofFields rest

/-- The filters in an array. -/
def Filter.ofArray? : Value → Option (List Filter)
  | .array items => some (Filter.ofItems items)
  | _ => none

def Filter.ofItems : List Value → List Filter
  | [] => []
  | v :: rest => Filter.ofValue v :: Filter.ofItems rest

end

end DocQuery
