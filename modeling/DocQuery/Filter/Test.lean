import DocQuery.Filter

/-!
Testing documents.

A path can reach several values or none. A condition holds if it holds of one of them, and a negation if
what it negates does not hold; each condition says for itself what it makes of a path that reaches nothing.
Tests go from the left and end when the answer is known, so a fault that comes later is not met.
-/

namespace DocQuery

/-- The search for words: given a document and what is asked for. -/
abbrev TextSearch := Value → Value → Checked Bool

/-- The value, and the items if it is an array. -/
def Value.withItems : Value → List Value
  | .array items => .array items :: items
  | v => [v]

namespace Condition

/-! ### Single values -/

def findsEqual (wanted v : Value) : Bool := v.withItems.any (·.equal wanted)

/-- A value that is null or missing lies on no side of one that is not. -/
def liesWithin (bound : Bound) (limit v : Value) : Bool :=
  v.isNullish == limit.isNullish && bound.admits (v.compare limit)

/-- Items are compared one by one, and the array itself is compared with an array only. -/
def findsWithin (bound : Bound) (limit : Value) : Value → Bool
  | .array items => (limit.isArray && liesWithin bound limit (.array items)) || items.any (liesWithin bound limit)
  | v => liesWithin bound limit v

def findsOneOf (values : List Value) (v : Value) : Bool := v.withItems.any fun c => values.any c.equal

def hasSize (length : Nat) : Value → Bool
  | .array items => items.length = length
  | _ => false

def findsType (types : List ValueType) (v : Value) : Bool :=
  !v.isMissing && v.withItems.any fun c => types.any (·.describes c)

def findsText (p : Pattern) (v : Value) : Bool :=
  v.withItems.any fun
    | .string text => p.isMatch text
    | _ => false

/-- Does the number, cut to an integer, leave the rest? A rest has the sign of the number. -/
def leaves (divisor rest : Int64) (v : Value) : Bool :=
  match v.toDouble? with
  | some x => x.isFinite && (clampDouble x).toInt.tmod divisor.toInt = rest.toInt
  | none => false

def findsRemainder (divisor rest : Int64) (v : Value) : Bool := v.withItems.any (leaves divisor rest)

/-- Only an integer has bits, and the items of an array are not looked at. -/
def hasBits (test : BitTest) (positions : List Nat) (v : Value) : Bool :=
  match v.toInt? with
  | some n => match test with
    | .allSet => positions.all (isBitSet n)
    | .allClear => positions.all fun p => !isBitSet n p
    | .anySet => positions.any (isBitSet n)
    | .anyClear => positions.any fun p => !isBitSet n p
  | none => false

/-- Does some candidate pass the test? A path that reaches nothing has an answer of its own. -/
def someCandidate (absent : Bool) (test : Value → Bool) : List Value → Bool
  | [] => absent
  | candidates => candidates.any test

/-- Does the test pass for some item of some array among the candidates? -/
def someItem (test : Value → Checked Bool) (candidates : List Value) : Checked Bool :=
  candidates.anyM fun
    | .array items => items.anyM test
    | _ => .ok false

end Condition

/-! ### Conditions and filters -/

mutual

/-- Does the condition hold of the values that a path reaches? -/
def Condition.test (search : Option TextSearch) : Condition → List Value → Checked Bool
  | .invalid _ met, _ => .error met
  | .equals wanted, vs => .ok (Condition.someCandidate wanted.isNull (Condition.findsEqual wanted) vs)
  | .bounded bound limit, vs =>
    .ok (Condition.someCandidate (limit.isNullish && bound.admits .eq) (Condition.findsWithin bound limit) vs)
  | .oneOf values, vs =>
    .ok (Condition.someCandidate (values.any Value.isNull) (Condition.findsOneOf values) vs)
  | .allOf wanted, vs =>
    if wanted.isEmpty || vs.isEmpty then .ok false else testConditions search wanted vs
  | .allOfNoArray, _ => .error (.operandNotArray "$all")
  | .item conditions, vs => Condition.someItem (fun v => testConditions search conditions [v]) vs
  | .itemObject filter, vs =>
    Condition.someItem (fun v => if v.isObject then filter.test search v else .ok false) vs
  | .itemNoObject, vs => if vs.any Value.isArray then .error .elemMatchNotObject else .ok false
  | .size length, vs => .ok (Condition.someCandidate false (Condition.hasSize length) vs)
  | .present wanted, vs =>
    .ok (if wanted then vs.any (!·.isMissing) else vs.isEmpty || vs.any Value.isMissing)
  | .typed types, vs => .ok (Condition.someCandidate false (Condition.findsType types) vs)
  | .pattern p, vs => .ok (Condition.someCandidate false (Condition.findsText p) vs)
  | .remainder divisor rest, vs =>
    .ok (Condition.someCandidate false (Condition.findsRemainder divisor rest) vs)
  | .bits test positions, vs => .ok (Condition.someCandidate false (Condition.hasBits test positions) vs)
  | .not condition, vs => do return !(← condition.test search vs)

/-- Do all conditions hold? -/
def testConditions (search : Option TextSearch) : List Condition → List Value → Checked Bool
  | [], _ => .ok true
  | c :: rest, vs => do if ← c.test search vs then testConditions search rest vs else .ok false

/-- Does the document pass the filter? Where no search is given, a search for words finds every document. -/
def Filter.test (search : Option TextSearch) : Filter → Value → Checked Bool
  | .invalid _ met, _ => .error met
  | .all parts, d => testAll search parts d
  | .any parts, d => testAny search parts d
  | .not part, d => do return !(← part.test search d)
  | .field path condition, d => condition.test search (path.candidates d)
  | .holds expression, d => do return (← Expr.evaluateOn expression d).isTruthy
  | .conforms schema, d => .ok (schema.accepts d)
  | .text wanted, d => match search with
    | some search => search d wanted
    | none => .ok true

def testAll (search : Option TextSearch) : List Filter → Value → Checked Bool
  | [], _ => .ok true
  | f :: rest, d => do if ← f.test search d then testAll search rest d else .ok false

def testAny (search : Option TextSearch) : List Filter → Value → Checked Bool
  | [], _ => .ok false
  | f :: rest, d => do if ← f.test search d then .ok true else testAny search rest d

end

/-- Does the condition hold of one value, or of nothing? An array of wanted values is not looked for, nor
    looked at, where there is nothing. -/
def Condition.testOne (search : Option TextSearch) (c : Condition) : Option Value → Checked Bool
  | some v => c.test search [v]
  | none => match c with
    | .allOfNoArray => .ok false
    | c => c.test search []

end DocQuery
