import DocQuery.Expr.Basic
import DocQuery.Unicode.Property

/-!
Operators that decide which of their parts are evaluated and in what scope: connectives, conditionals,
constants, variables, and the loops over arrays.
-/

namespace DocQuery.Control

open DocQuery.Expr

/-! ### Connectives -/

/-- Does every expression hold? The first that does not ends the evaluation. -/
def allHold (s : Scope) : List Expr → Checked Bool
  | [] => .ok true
  | e :: rest => do if (← e.eval s).isTruthy then allHold s rest else .ok false

/-- Does some expression hold? The first that does ends the evaluation. -/
def someHolds (s : Scope) : List Expr → Checked Bool
  | [] => .ok false
  | e :: rest => do if (← e.eval s).isTruthy then .ok true else someHolds s rest

def and : Operator := fun e s => (allHold s e.arguments).map .bool

def or : Operator := fun e s => (someHolds s e.arguments).map .bool

def not : Operator := .unary "$not" fun v => .ok (.bool !v.isTruthy)

/-! ### Conditionals -/

/-- The chosen branch of a conditional; the other one is not evaluated. -/
def choose (test yes no : Expr) (s : Scope) : Checked Value := do
  if (← test.eval s).isTruthy then yes.eval s else no.eval s

/-- Three arguments in an array, or by the names `if`, `then` and `else`. -/
def cond : Operator := fun e s =>
  match e with
  | .array _ _ [test, yes, no] => choose test yes no s
  | .array _ _ items => .error (.argumentCount "$cond" 3 items.length)
  | e => do
    let fields ← e.named "$cond" ["if", "then", "else"]
    let test ← required "$cond" fields "if"
    let yes ← required "$cond" fields "then"
    let no ← required "$cond" fields "else"
    choose test yes no s

/-- The first value that is there and not null; the last expression decides if no other does. -/
def firstPresent (s : Scope) : Expr → List Expr → Checked Value
  | last, [] => last.eval s
  | e, next :: rest => do
    let v ← e.eval s
    if v.isNullish then firstPresent s next rest else .ok v

def ifNull : Operator := fun e s =>
  match e with
  | .array _ _ (first :: second :: rest) => firstPresent s first (second :: rest)
  | _ => .error .ifNullArguments

/-- The first branch whose case holds, if any. -/
def firstBranch (s : Scope) : List Expr → Checked (Option Value)
  | [] => .ok none
  | branch :: rest => do
    let fields ← branch.named "$switch" ["case", "then"]
    let test ← required "$switch" fields "case"
    let body ← required "$switch" fields "then"
    if (← test.eval s).isTruthy then (body.eval s).map some else firstBranch s rest

def switch : Operator := fun e s => do
  let fields ← e.named "$switch" ["branches", "default"]
  let .array _ _ branches ← required "$switch" fields "branches" | .error .branchesNotArray
  match ← firstBranch s branches with
  | some v => .ok v
  | none => match fields.get? "default" with
    | some e => e.eval s
    | none => .error .noBranch

/-! ### Constants and variables -/

def literal : Operator := fun e _ => .ok e.source

/-- A name for a variable begins with a lower case ASCII letter, an underscore or a character beyond
    ASCII, and holds letters, numbers and underscores. -/
def isVariableName (name : String) : Bool :=
  let isFirst (c : Char) := ('a' ≤ c && c ≤ 'z') || c = '_' || !Unicode.isAscii c
  match name.toList with
  | [] => false
  | c :: rest => isFirst c && (c :: rest).all fun c => Unicode.isAlphanumeric c || c = '_'

def checkVariableName (operator name : String) : Checked Unit :=
  if isVariableName name then .ok () else .error (.variableName operator name)

/-- Binds variables to the values that their expressions have in the `outer` scope. -/
def bindAll (outer : Scope) : List (String × Expr) → Scope → Checked Scope
  | [], inner => .ok inner
  | (name, e) :: rest, inner => do
    checkVariableName "$let" name
    bindAll outer rest (inner.bind name (← e.eval outer))

def letIn : Operator := fun e s => do
  let fields ← e.named "$let" ["vars", "in"]
  let .object _ _ vars ← required "$let" fields "vars" | .error .letVarsNotObject
  let body ← required "$let" fields "in"
  body.eval (← bindAll s vars s)

/-! ### Loops -/

/-- The name of the variable that runs through the items: the argument `as`, or else `this`. It must be
    written out, not computed. -/
def loopVariable (operator : String) (fields : Fields Expr) : Checked String :=
  match (fields.get? "as").map Expr.source with
  | some (.string name) => do
    checkVariableName operator name
    return name
  | some v => .error (.wrongType operator "a string for 'as'" v)
  | none => .ok "this"

/-- How many items a filter keeps at most. -/
def filterLimit? (fields : Fields Expr) (s : Scope) : Checked (Option Nat) := do
  match ← evalOptional fields "limit" s with
  | none | some .null | some .missing => return none
  | some v =>
    let n ← v.expectInt "$filter"
    if n < 1 then throw (.filterLimit n)
    return some n.toNat

/-- The items for which the condition holds, until there are enough. -/
def keepItems (condition : Expr) (name : String) (s : Scope) : Option Nat → List Value → Checked (List Value)
  | some 0, _ => .ok []
  | _, [] => .ok []
  | limit, item :: rest => do
    if (← condition.eval (s.bind name item)).isTruthy then
      return item :: (← keepItems condition name s (limit.map (· - 1)) rest)
    else keepItems condition name s limit rest

def filter : Operator := fun e s => do
  let fields ← e.named "$filter" ["input", "as", "cond", "limit"]
  let input ← (← required "$filter" fields "input").eval s
  let condition ← required "$filter" fields "cond"
  let name ← loopVariable "$filter" fields
  let limit ← filterLimit? fields s
  match ← input.expectItems? "$filter" with
  | none => return .null
  | some items => return .array (← keepItems condition name s limit items)

def map : Operator := fun e s => do
  let fields ← e.named "$map" ["input", "as", "in"]
  let input ← (← required "$map" fields "input").eval s
  let body ← required "$map" fields "in"
  let name ← loopVariable "$map" fields
  match ← input.expectItems? "$map" with
  | none => return .null
  | some items => return .array (← items.mapM fun item => (body.eval (s.bind name item)).map Value.orNull)

/-- The body sees what there is so far as `value` and the item as `this`. -/
def reduce : Operator := fun e s => do
  let fields ← e.named "$reduce" ["input", "initialValue", "in"]
  let input ← (← required "$reduce" fields "input").eval s
  let initial ← required "$reduce" fields "initialValue"
  let body ← required "$reduce" fields "in"
  match ← input.expectItems? "$reduce" with
  | none => return .null
  | some items =>
    items.foldlM (fun value item => body.eval ((s.bind "value" value).bind "this" item)) (← initial.eval s)

def operators : List (String × Operator) :=
  [("$and", and), ("$or", or), ("$not", not), ("$cond", cond), ("$ifNull", ifNull), ("$switch", switch),
    ("$literal", literal), ("$let", letIn), ("$filter", filter), ("$map", map), ("$reduce", reduce)]

end DocQuery.Control
