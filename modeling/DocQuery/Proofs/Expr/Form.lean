import DocQuery.Proofs.Expr.Evaluation

/-! Checking the form of an expression. What passes the check has at most one operator in an object, and one that
    exists, wherever it is evaluated: its evaluation reports neither fault. -/

namespace DocQuery

open Checked DocQuery.Expr

theorem Fault.isOfForm_eq_false {f : Fault} (h : f.isOperational) : f.isOfForm = false := by
  cases f with
  | unknownOperator | operatorNotAlone => exact Bool.noConfusion h
  | _ => rfl

/-- Any value may come up, but no fault of form. -/
def Discipline.formal : Discipline :=
  .reporting (·.isOfForm = false) Fault.isOfForm_eq_false

namespace Expr

variable {e : Value} {fields : List (String × Value)}

/-! ### What the check passes -/

theorem validateItems_eq_ok : ∀ {items : List Value}, validateItems items = .ok () ↔ ∀ v ∈ items, validate v = .ok ()
  | [] => iff_of_true rfl (List.forall_mem_nil _)
  | v :: rest => by
    rw [validateItems, seq_eq_ok, List.forall_mem_cons, validateItems_eq_ok]

theorem validateFields_eq_ok : ∀ {fields : List (String × Value)},
    validateFields fields = .ok () ↔ ∀ f ∈ fields, validate f.2 = .ok ()
  | [] => iff_of_true rfl (List.forall_mem_nil _)
  | (name, v) :: rest => by
    rw [validateFields, seq_eq_ok, List.forall_mem_cons, validateFields_eq_ok]

/-- An object passes if it applies no operator or one that exists, and its values pass unless they stand under
    `$literal`. -/
theorem validate_object (h : validate (.object fields) = .ok ()) :
    (∃ v, fields = [("$literal", v)]) ∨
      ((∀ f ∈ fields, validate f.2 = .ok ()) ∧ ∃ form, invocation? fields = .ok form ∧
        ∀ name v, form = some (name, v) → name ≠ "$literal" ∧ isOperator name) := by
  rw [validate] at h
  obtain ⟨form, hform, h⟩ := bind_eq_ok.mp h
  -- Without an operator all values are checked, and likewise under one, unless it is `$literal`.
  rcases form with _ | ⟨name, v⟩
  · exact .inr ⟨validateFields_eq_ok.mp h, none, hform, nofun⟩
  · by_cases hop : isOperator name
    · by_cases hname : name = "$literal"
      · exact .inl ⟨v, hname ▸ eq_of_invocation? hform⟩
      · simp only [hop, hname, Bool.not_true, Bool.false_eq_true, ↓reduceIte] at h
        refine .inr ⟨validateFields_eq_ok.mp h, _, hform, fun name' v' heq => ?_⟩
        cases heq
        exact ⟨hname, hop⟩
    · rw [Bool.not_eq_true] at hop
      simp only [hop, Bool.not_false, ↓reduceIte] at h
      exact nomatch h

/-! ### What evaluation reports -/

theorem fits_formal_of_validate (h : validate e = .ok ()) : Discipline.formal.Fits e := by
  induction e with
  | string text => exact Discipline.fits_string_reporting text
  | array items ih => exact .array fun v hv => ih v hv (validateItems_eq_ok.mp h v hv)
  | object fields ih =>
    rcases validate_object h with ⟨v, rfl⟩ | ⟨hfields, form, hform, hop⟩
    · exact .literal trivial
    · refine .object (fun f hf => ih f hf (hfields f hf)) (fun fault hfault => ?_) fun name v hinvoke => ?_
      · cases hfault.symm.trans hform
      · obtain ⟨hname, hop⟩ := hop name v (Except.ok.inj (hform.symm.trans hinvoke))
        refine ⟨hname, fun hnone => ?_⟩
        rw [isOperator, hnone] at hop
        exact Bool.noConfusion hop
  | _ => exact .constant rfl

/-- An expression that passes the check evaluates, in every scope, without coming upon an operator that does not
    exist or one that shares its object with other names. -/
theorem evaluate_reports_no_fault_of_form (h : validate e = .ok ()) (s : Scope) :
    (∀ name, evaluate e s ≠ .error (.unknownOperator name)) ∧
      ∀ names, evaluate e s ≠ .error (.operatorNotAlone names) := by
  have hform := (Discipline.evaluate_agree (fits_formal_of_validate h) (rfl : s = s)).yields
  exact ⟨fun _ heq => Bool.noConfusion (hform.of_eq_error heq), fun _ heq => Bool.noConfusion (hform.of_eq_error heq)⟩

/-- A loop over items, with a constant that looks like an operator. -/
theorem evaluate_loop_reports_no_fault_of_form :
    let e := Value.object [("$map", .object [("input", .string "$items"), ("as", .string "item"),
      ("in", .object [("$eq", .array [.string "$$item", .object [("$literal", .object [("$none", .null)])]])])])]
    validate e = .ok () ∧ (∀ name, evaluate e { root := .null } ≠ .error (.unknownOperator name)) ∧
      ∀ names, evaluate e { root := .null } ≠ .error (.operatorNotAlone names) :=
  ⟨rfl, evaluate_reports_no_fault_of_form rfl _⟩

end Expr

end DocQuery
