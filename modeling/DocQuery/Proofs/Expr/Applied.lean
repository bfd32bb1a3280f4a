import DocQuery.Proofs.Expr.Folds

/-! Operators on values, applied to expressions. All arguments are evaluated, from the left, and the operator takes what
    they come to. Where it wants an integer, a whole double does as well. -/

namespace DocQuery.Expr

open Checked

variable {name operator : String} {s : Scope} {es vs rest : List Value} {a b c e u v w : Value}

/-- The expression that applies an operator to arguments. -/
def applied (name : String) (es : List Value) : Value := .object [(name, .array es)]

/-- The expressions come to these values, one by one. -/
def ComeTo (s : Scope) : List Value → List Value → Prop := List.Forall₂ fun e v => evaluate e s = .ok v

theorem evalArguments_of_comeTo (h : ComeTo s es vs) : (ofValue operator? (.array es)).evalArguments s = .ok vs := by
  rw [evalArguments_array]
  exact mapM_eq_ok.mpr h

/-- The argument of an operator on one value: an expression that is no array, or an array of just one expression. -/
inductive Single (e : Value) : Value → Prop
  | alone (h : e.isArray = false) : Single e e
  | bracketed : Single e (.array [e])

theorem evaluate_unary {f : Value → Checked Value} (hname : isOperatorName name)
    (hoperator : operator? name = some (.unary operator f)) (ha : Single e a) (he : evaluate e s = .ok v) :
    evaluate (.object [(name, a)]) s = f v := by
  have hargument : evaluate (.object [(name, a)]) s = (do f (← evaluate e s)) := by
    rw [evaluate_operator _ hname hoperator]
    cases ha with
    | bracketed => rfl
    | alone h =>
      cases a with
      | array => exact Bool.noConfusion h
      | _ => rfl
  rw [hargument, he]
  rfl

theorem evaluate_binary {f : Value → Value → Checked Value} (hname : isOperatorName name)
    (hoperator : operator? name = some (.binary operator f)) (h : ComeTo s es [v, w]) :
    evaluate (applied name es) s = f v w := by
  rw [applied, evaluate_operator _ hname hoperator, Operator.binary, evalArguments_of_comeTo h]
  rfl

theorem evaluate_variadic {f : List Value → Checked Value} (hname : isOperatorName name)
    (hoperator : operator? name = some (.variadic f)) (h : ComeTo s es vs) :
    evaluate (applied name es) s = f vs := by
  rw [applied, evaluate_operator _ hname hoperator, Operator.variadic, evalArguments_of_comeTo h]
  rfl

theorem evaluate_ternary {f : Value → Value → Value → Checked Value} (hname : isOperatorName name)
    (hoperator : operator? name = some (.ternary operator f)) (h : ComeTo s es [u, v, w]) :
    evaluate (applied name es) s = f u v w := by
  rw [applied, evaluate_operator _ hname hoperator, Operator.ternary, evalArguments_of_comeTo h]
  rfl

theorem evaluate_ranged {more : Nat} {f : Value → Value → List Value → Checked Value} (hname : isOperatorName name)
    (hoperator : operator? name = some (.ranged operator more f)) (h : ComeTo s es (v :: w :: rest))
    (hrest : rest.length ≤ more) : evaluate (applied name es) s = f v w rest := by
  rw [applied, evaluate_operator _ hname hoperator, Operator.ranged, evalArguments_of_comeTo h]
  exact if_pos hrest

/-! ### Integers -/

/-- The expression comes to an integer, or to the whole double that stands for it. -/
def ComesToInt (e : Value) (s : Scope) (n : Int64) : Prop := ∃ v, evaluate e s = .ok v ∧ v.toInt? = some n

theorem comesToInt_int (n : Int64) (s : Scope) : ComesToInt (.int n) s n := ⟨.int n, rfl, rfl⟩

end DocQuery.Expr

namespace DocQuery.Value

variable {v : Value} {n : Int64}

theorem expectInt_of_toInt? (operator : String) (h : v.toInt? = some n) : v.expectInt operator = .ok n.toInt := by
  rw [expectInt, h]

theorem isNullish_of_toInt? (h : v.toInt? = some n) : v.isNullish = false := by
  cases v with
  | int | double => rfl
  | _ => exact nomatch h

end DocQuery.Value
