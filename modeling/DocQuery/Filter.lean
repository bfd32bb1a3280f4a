import DocQuery.Expr
import DocQuery.Schema

/-!
Filters: formulas over conditions on the values that paths reach.

A filter is written as an object. Its fields must all hold: a path with a condition for the values there,
or an operator on whole documents. A condition is an object of one operator, or else the value to be
found. A part that has no meaning is kept with the fault that it stands for, so that reading never fails:
checking a filter reports the first such part, and testing reports it when it comes to it.
-/

namespace DocQuery

/-- The sides of a value on which others may lie. -/
inductive Bound where
  | above
  | atLeast
  | below
  | atMost
deriving DecidableEq

/-- May a value lie there that compares with the bound like this? -/
def Bound.admits : Bound → Ordering → Bool
  | above, o => o = .gt
  | atLeast, o => o ≠ .lt
  | below, o => o = .lt
  | atMost, o => o ≠ .gt

/-- What is asked of a set of bits. -/
inductive BitTest where
  | allSet
  | allClear
  | anySet
  | anyClear
deriving DecidableEq

mutual

/-- What is asked of the values that a path reaches. -/
inductive Condition where
  /-- No condition at all: checking reports the `cause`, and testing the fault that is `met` then. -/
  | invalid (cause met : Fault)
  | equals (value : Value)
  | bounded (bound : Bound) (value : Value)
  | oneOf (values : List Value)
  /-- All of these are found among the values. They are not checked before they are tested. -/
  | allOf (wanted : List Condition)
  /-- What stands in place of the list of wanted values is no array. -/
  | allOfNoArray
  /-- An array has an item of which all conditions hold. -/
  | item (conditions : List Condition)
  /-- An array has an object among its items that passes the filter. -/
  | itemObject (filter : Filter)
  /-- What stands in place of the conditions on an item is no object. -/
  | itemNoObject
  | size (length : Nat)
  | present (wanted : Bool)
  | typed (types : List ValueType)
  | pattern (p : Pattern)
  | remainder (divisor remainder : Int64)
  | bits (test : BitTest) (positions : List Nat)
  | not (condition : Condition)

inductive Filter where
  /-- No filter at all: checking reports the `cause`, and testing the fault that is `met` then. -/
  | invalid (cause met : Fault)
  | all (parts : List Filter)
  | any (parts : List Filter)
  | not (part : Filter)
  | field (path : Path) (condition : Condition)
  /-- The expression evaluates to something that holds. -/
  | holds (expression : Value)
  | conforms (schema : Schema)
  | text (search : Value)

end

def Condition.refused (cause : Fault) : Condition := .invalid cause cause

def Filter.refused (cause : Fault) : Filter := .invalid cause cause

/-! ### Checking -/

mutual

/-- Reports the first part that has no meaning. -/
def Condition.check : Condition → Checked Unit
  | .invalid cause _ => .error cause
  | .allOfNoArray => .error (.operandNotArray "$all")
  | .item conditions => checkConditions conditions
  | .itemObject filter => filter.check
  | .itemNoObject => .error .elemMatchNotObject
  | .not condition => condition.check
  | _ => .ok ()

def checkConditions : List Condition → Checked Unit
  | [] => .ok ()
  | c :: rest => do
    c.check
    checkConditions rest

def Filter.check : Filter → Checked Unit
  | .invalid cause _ => .error cause
  | .all parts | .any parts => checkFilters parts
  | .not part => part.check
  | .field _ condition => condition.check
  | .holds expression => Expr.validate expression
  | .conforms _ => .ok ()
  | .text search => match search.get? "$search" with
    | some (.string _) => .ok ()
    | _ => .error .textWithoutSearch

def checkFilters : List Filter → Checked Unit
  | [] => .ok ()
  | f :: rest => do
    f.check
    checkFilters rest

end

end DocQuery
