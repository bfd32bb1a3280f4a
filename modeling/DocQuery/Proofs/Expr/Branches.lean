import DocQuery.Proofs.Expr.Applied

/-! Choices by more than one condition. To take the first branch whose case holds, and to take the first value that is
    neither null nor missing, is to nest conditionals. In both forms nothing is evaluated behind what decides, so that
    a fault there is reported by neither, and the first one that is met is reported by both. -/

namespace DocQuery

open DocQuery.Expr Value

/-- Null equals itself and missing. -/
theorem Value.equal_null (v : Value) : v.equal .null = v.isNullish := by
  cases v <;> rfl

namespace Expr

variable {s : Scope} {branch e default expression : Value} {values : List Value}

/-! ### Branches -/

/-- A condition, and what is chosen if it holds. -/
structure Branch where
  test : Value
  body : Value

variable {b : Branch} {branches : List Branch}

/-- A branch is written with its two parts in any order. -/
inductive Branch.WrittenAs (b : Branch) : Value → Prop
  | testFirst : b.WrittenAs (.object [("case", b.test), ("then", b.body)])
  | bodyFirst : b.WrittenAs (.object [("then", b.body), ("case", b.test)])

/-- The expression takes the first branch whose case holds, or what there is besides the branches. -/
inductive Switches (branches : List Branch) (default : Value) : Value → Prop
  | branchesFirst {values : List Value} (h : List.Forall₂ Branch.WrittenAs branches values) :
    Switches branches default
      (.object [("$switch", .object [("branches", .array values), ("default", default)])])
  | defaultFirst {values : List Value} (h : List.Forall₂ Branch.WrittenAs branches values) :
    Switches branches default
      (.object [("$switch", .object [("default", default), ("branches", .array values)])])

/-- Conditionals, each in place of what the one before it comes to if its condition does not hold. -/
def nested (branches : List Branch) (default : Value) : Value :=
  branches.foldr (fun b rest => choosing b.test b.body rest) default

/-- What a list of branches comes to, if what there is besides comes to `otherwise`. -/
def decided (s : Scope) (values : List Value) (otherwise : Checked Value) : Checked Value := do
  match ← Control.firstBranch s (ofItems operator? values) with
  | some v => .ok v
  | none => otherwise

theorem decided_cons (h : b.WrittenAs branch) (values : List Value) (otherwise : Checked Value) :
    decided s (branch :: values) otherwise = (do
      if (← evaluate b.test s).isTruthy then evaluate b.body s else decided s values otherwise) := by
  have hfirst : Control.firstBranch s (ofItems operator? (branch :: values)) = (do
      if (← evaluate b.test s).isTruthy then (evaluate b.body s).map some
      else Control.firstBranch s (ofItems operator? values)) := by
    cases h <;> rfl
  rw [decided, hfirst]
  cases evaluate b.test s with
  | error fault => rfl
  | ok v =>
    cases hv : v.isTruthy with
    | true =>
      simp only [bind, Except.bind, hv, if_true]
      cases evaluate b.body s <;> rfl
    | false => simp [bind, Except.bind, hv, decided]

theorem decided_eq_nested (h : List.Forall₂ Branch.WrittenAs branches values) :
    decided s values (evaluate default s) = evaluate (nested branches default) s := by
  induction h with
  | nil => rfl
  | @cons b branch rest _ hbranch _ ih =>
    have hnested : nested (b :: rest) default = choosing b.test b.body (nested rest default) := List.foldr_cons ..
    rw [decided_cons hbranch, hnested, evaluate_choosing, ih]

theorem evaluate_switches (h : Switches branches default expression) :
    evaluate expression s = evaluate (nested branches default) s := by
  cases h with
  | branchesFirst hvalues | defaultFirst hvalues =>
    rw [← decided_eq_nested hvalues, evaluate_operator Control.switch rfl rfl]
    rfl

/-! ### Values in place of null -/

/-- Conditionals that pass over what is null or missing, down to the last expression. -/
def firstOf : Value → List Value → Value
  | last, [] => last
  | e, next :: rest => choosing (applied "$eq" [e, .null]) (firstOf next rest) e

theorem evaluate_eq_null (e : Value) (s : Scope) :
    evaluate (applied "$eq" [e, .null]) s = (evaluate e s).map fun v => .bool v.isNullish := by
  rw [applied, evaluate_operator (Relation.test "$eq" (· == .eq)) rfl rfl, Relation.test, Relation.comparing,
    Operator.binary, evalArguments_array]
  cases hv : evaluate e s with
  | error fault => simp [List.mapM_cons, hv, bind, Except.bind, Except.map]
  | ok v =>
    have hnull : evaluate .null s = .ok .null := rfl
    simp [List.mapM_cons, hv, hnull, bind, Except.bind, pure, Except.pure, Except.map, ← equal_null, equal]

theorem firstPresent_eq (e : Value) (rest : List Value) :
    Control.firstPresent s (ofValue operator? e) (ofItems operator? rest) = evaluate (firstOf e rest) s := by
  induction rest generalizing e with
  | nil => rfl
  | cons next rest ih =>
    have hstep : Control.firstPresent s (ofValue operator? e) (ofItems operator? (next :: rest)) = (do
        let v ← evaluate e s
        if v.isNullish then Control.firstPresent s (ofValue operator? next) (ofItems operator? rest) else .ok v) := rfl
    rw [hstep, firstOf, evaluate_choosing, evaluate_eq_null, ih]
    -- The value that is there is evaluated once more, and comes to the same.
    cases evaluate e s <;> rfl

theorem evaluate_ifNull (e next : Value) (rest : List Value) :
    evaluate (applied "$ifNull" (e :: next :: rest)) s = evaluate (firstOf e (next :: rest)) s := by
  rw [← firstPresent_eq, applied, evaluate_operator Control.ifNull rfl rfl]
  rfl

/-- A choice among branches comes to the same as nested conditionals, whatever its branches and what there is besides;
    and so does the choice of the first value that is neither null nor missing. -/
theorem evaluate_choices_eq_nested (s : Scope) :
    (∀ (branches : List Branch) (default expression : Value), Switches branches default expression →
      evaluate expression s = evaluate (nested branches default) s) ∧
    ∀ (e next : Value) (rest : List Value),
      evaluate (applied "$ifNull" (e :: next :: rest)) s = evaluate (firstOf e (next :: rest)) s :=
  ⟨fun _ _ _ => evaluate_switches, evaluate_ifNull⟩

/-- The middle one of three branches decides, so nothing is divided by zero; neither is it behind a value that is
    there, but it is behind one that is not. -/
theorem evaluate_choices_eq_nested_sizes :
    let s : Scope := { root := .null, bindings := [("qty", .int 250)] }
    let quotient := applied "$divide" [.int 1, .int 0]
    let branches : List Branch := [⟨applied "$lt" [.string "$$qty", .int 100], .string "low"⟩,
      ⟨applied "$lt" [.string "$$qty", .int 500], .string "mid"⟩, ⟨quotient, .string "high"⟩]
    let expression := Value.object [("$switch", .object [("default", quotient), ("branches", .array
      [.object [("case", applied "$lt" [.string "$$qty", .int 100]), ("then", .string "low")],
        .object [("then", .string "mid"), ("case", applied "$lt" [.string "$$qty", .int 500])],
        .object [("case", quotient), ("then", .string "high")]])])]
    Switches branches quotient expression ∧
      evaluate expression s = evaluate (nested branches quotient) s ∧ evaluate expression s = .ok (.string "mid") ∧
      evaluate (firstOf .null [.string "$$qty", quotient]) s = .ok (.int 250) ∧
      evaluate (firstOf .null [quotient]) s = .error (.divideByZero "$divide") := by
  intro s quotient branches expression
  have hswitches : Switches branches quotient expression :=
    .defaultFirst (.cons .testFirst (.cons .bodyFirst (.cons .testFirst .nil)))
  obtain ⟨hswitch, hifNull⟩ := evaluate_choices_eq_nested s
  refine ⟨hswitches, hswitch branches quotient expression hswitches, ?_, ?_, ?_⟩
  · unfold expression quotient
    rfl
  · rw [← hifNull]
    unfold quotient
    rfl
  · rw [← hifNull]
    unfold quotient
    rfl

end Expr

end DocQuery
