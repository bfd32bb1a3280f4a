import DocQuery.Fault
import DocQuery.Path

/-!
Expressions and the scopes that they are evaluated in.

An expression is written as a value: a string with a dollar sign is a path into the document at hand or
a variable, an object with one operator key is the application of the operator, and anything else stands
for itself with its parts evaluated. Reading it gives each part its evaluator, so that an operator decides
which of its parts are evaluated, how often and in what scope.
-/

namespace DocQuery

/-- The document that paths start from, and the variables, the innermost first. -/
structure Scope where
  root : Value
  bindings : List (String × Value) := []

namespace Scope

def bind (s : Scope) (name : String) (value : Value) : Scope := { s with bindings := (name, value) :: s.bindings }

def lookup (s : Scope) (name : String) : Option Value := Fields.get? s.bindings name

/-- The value of a variable: the nearest binding, else one of the variables that are always there. -/
def valueOf (s : Scope) (name : String) : Checked Value :=
  match s.lookup name with
  | some value => .ok value
  | none =>
    match name with
    | "ROOT" | "CURRENT" => .ok s.root
    | "REMOVE" => .ok .missing
    | name => .error (.undefinedVariable name)

/-- A variable, and a path into it if a dot follows the name. -/
def reference (s : Scope) (text : List Char) : Checked Value :=
  let name := String.ofList (text.takeWhile (· ≠ '.'))
  match text.dropWhile (· ≠ '.') with
  | [] => s.valueOf name
  | _ :: path => (s.valueOf name).map (Path.resolve (Path.ofString (String.ofList path)))

end Scope

/-- An expression, as it was written and with the evaluator of each of its parts. -/
inductive Expr where
  | leaf (source : Value) (eval : Scope → Checked Value)
  | array (source : Value) (eval : Scope → Checked Value) (items : List Expr)
  | object (source : Value) (eval : Scope → Checked Value) (fields : List (String × Expr))

/-- An operator takes the expression that it is applied to. -/
abbrev Operator := Expr → Scope → Checked Value

namespace Expr

def source : Expr → Value
  | leaf source _ | array source .. | object source .. => source

def eval : Expr → Scope → Checked Value
  | leaf _ eval | array _ eval _ | object _ eval _ => eval

/-! ### Reading -/

/-- Two dollar signs name a variable, one a path into the root, and other strings stand for themselves. -/
def evalString (s : String) : Scope → Checked Value :=
  match s.toList with
  | '$' :: '$' :: reference => fun scope => scope.reference reference
  | ['$'] => fun _ => .error .bareDollar
  | '$' :: path => fun scope => .ok ((Path.ofString (String.ofList path)).resolve scope.root)
  | _ => fun _ => .ok (.string s)

/-- The items of an array, null in place of missing. -/
def evalItems (items : List Expr) (s : Scope) : Checked (List Value) :=
  items.mapM fun item => (item.eval s).map Value.orNull

/-- The fields of an object, without those that are missing. -/
def evalFields (s : Scope) : List (String × Expr) → Document → Checked Document
  | [], done => .ok done
  | (name, e) :: rest, done => do
    let value ← e.eval s
    evalFields s rest (if value.isMissing then done else done.insert name value)

/-- The operator that an object applies and what it applies it to. An object with an operator name has no
    other name. -/
def invocation? {α : Type} (fields : List (String × α)) : Checked (Option (String × α)) :=
  if !fields.any (isOperatorName ·.1) then .ok none
  else match fields with
    | [field] => .ok (some field)
    | fields => .error (.operatorNotAlone (Fields.names fields))

def evalObject (operator? : String → Option Operator) (fields : List (String × Expr)) : Scope → Checked Value :=
  match invocation? fields with
  | .error fault => fun _ => .error fault
  | .ok none => fun s => (evalFields s fields []).map .object
  | .ok (some (name, argument)) =>
    match operator? name with
    | some operator => operator argument
    | none => fun _ => .error (.unknownOperator name)

mutual

def ofValue (operator? : String → Option Operator) : Value → Expr
  | .string s => .leaf (.string s) (evalString s)
  | .array values =>
    let items := ofItems operator? values
    .array (.array values) (fun s => (evalItems items s).map .array) items
  | .object values =>
    let fields := ofFields operator? values
    .object (.object values) (evalObject operator? fields) fields
  | v => .leaf v fun _ => .ok v

def ofItems (operator? : String → Option Operator) : List Value → List Expr
  | [] => []
  | v :: rest => ofValue operator? v :: ofItems operator? rest

def ofFields (operator? : String → Option Operator) : List (String × Value) → List (String × Expr)
  | [] => []
  | (name, v) :: rest => (name, ofValue operator? v) :: ofFields operator? rest

end

/-! ### Arguments -/

/-- The arguments of an operator: the items of an array, or the one expression that is no array. -/
def arguments : Expr → List Expr
  | array _ _ items => items
  | e => [e]

def evalArguments (e : Expr) (s : Scope) : Checked (List Value) := e.arguments.mapM (·.eval s)

/-- The named arguments of an operator; no other names are allowed. -/
def named (operator : String) (allowed : List String) : Expr → Checked (Fields Expr)
  | object _ _ fields =>
    match fields.find? fun field => !allowed.contains field.1 with
    | some (name, _) => .error (.unknownArgument operator name)
    | none => .ok fields
  | _ => .error (.argumentsNotObject operator)

/-- A named argument that must be there. -/
def required (operator : String) (fields : Fields Expr) (name : String) : Checked Expr :=
  match fields.get? name with
  | some e => .ok e
  | none => .error (.missingArgument operator name)

/-- A named argument that may be left out. -/
def evalOptional (fields : Fields Expr) (name : String) (s : Scope) : Checked (Option Value) :=
  match fields.get? name with
  | some e => (e.eval s).map some
  | none => .ok none

end Expr

namespace Operator

/-! ### Operators on values

These evaluate all their arguments, from the left, before the function sees them. -/

def variadic (f : List Value → Checked Value) : Operator := fun e s => do f (← e.evalArguments s)

def unary (operator : String) (f : Value → Checked Value) : Operator := fun e s =>
  match e with
  | .array _ _ [item] => do f (← item.eval s)
  | .array _ _ items => .error (.notUnary operator items.length)
  | e => do f (← e.eval s)

def binary (operator : String) (f : Value → Value → Checked Value) : Operator := fun e s => do
  match ← e.evalArguments s with
  | [a, b] => f a b
  | values => .error (.argumentCount operator 2 values.length)

def ternary (operator : String) (f : Value → Value → Value → Checked Value) : Operator := fun e s => do
  match ← e.evalArguments s with
  | [a, b, c] => f a b c
  | values => .error (.argumentCount operator 3 values.length)

/-- For two arguments that must be there and up to `more` others. -/
def ranged (operator : String) (more : Nat) (f : Value → Value → List Value → Checked Value) : Operator :=
  fun e s => do
    match ← e.evalArguments s with
    | a :: b :: rest =>
      if rest.length ≤ more then f a b rest
      else .error (.argumentRange operator 2 (2 + more) (2 + rest.length))
    | values => .error (.argumentRange operator 2 (2 + more) values.length)

end Operator

namespace Value

/-! ### Expected types -/

def expectDouble (operator : String) (v : Value) : Checked Double :=
  match v.toDouble? with
  | some x => .ok x
  | none => .error (.wrongType operator "a number" v)

def expectInt (operator : String) (v : Value) : Checked Int :=
  match v.toInt? with
  | some n => .ok n.toInt
  | none => .error (.wrongType operator "an integer" v)

def expectString (operator wanted : String) (v : Value) : Checked String :=
  match v with
  | .string s => .ok s
  | v => .error (.wrongType operator wanted v)

/-- An array; null or missing gives none. -/
def expectItems? (operator : String) : Value → Checked (Option (List Value))
  | missing | null => .ok none
  | array items => .ok (some items)
  | v => .error (.wrongType operator "an array" v)

end Value

end DocQuery
