import DocQuery.Expr.Control
import DocQuery.Expr.Conversion
import DocQuery.Expr.Dates
import DocQuery.Expr.Items
import DocQuery.Expr.Number
import DocQuery.Expr.Records
import DocQuery.Expr.Relation
import DocQuery.Expr.Strings

/-!
Evaluating expressions, and checking their form before they are evaluated.
-/

namespace DocQuery.Expr

/-- All operators by their names. -/
def operators : List (String × Operator) :=
  Number.operators ++ Strings.operators ++ Relation.operators ++ Control.operators ++ Dates.operators
    ++ Items.operators ++ Conversion.operators ++ Records.operators

def operator? (name : String) : Option Operator := Fields.get? operators name

/-- The value of an expression in a scope. -/
def evaluate (expression : Value) (s : Scope) : Checked Value := (ofValue operator? expression).eval s

/-- The value of an expression on a document. -/
def evaluateOn (expression document : Value) : Checked Value := evaluate expression { root := document }

/-- Is there an operator of this name? -/
def isOperator (name : String) : Bool := (operator? name).isSome

mutual

/-- Reports operators that do not exist and operators that share their object with other names. Under
    `$literal` nothing is an expression. -/
def validate : Value → Checked Unit
  | .array items => validateItems items
  | .object fields => do
    match ← invocation? fields with
    | some (name, _) =>
      if !isOperator name then throw (.unknownOperator name)
      else if name = "$literal" then return ()
      else validateFields fields
    | none => validateFields fields
  | _ => .ok ()

def validateItems : List Value → Checked Unit
  | [] => .ok ()
  | item :: rest => do
    validate item
    validateItems rest

def validateFields : List (String × Value) → Checked Unit
  | [] => .ok ()
  | (_, v) :: rest => do
    validate v
    validateFields rest

end

end DocQuery.Expr
