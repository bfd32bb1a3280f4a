import DocQuery.Proofs.Expr.Form
import DocQuery.Proofs.Filter.Algebra
import DocQuery.Proofs.Path.Walk

/-! Comparisons are written as conditions on a path and as operators in expressions. A condition takes the candidates of
    the path, looks into arrays and sets null apart; an operator takes what the path resolves to as it is. At a path
    through objects to a value that is neither an array nor null both come to the same. -/

namespace DocQuery

open Checked

/-- The operators that compare, and what each makes of how the value at hand compares with the one it is given. -/
def comparisons : List (String × (Ordering → Bool)) :=
  [("$eq", (· == .eq)), ("$ne", (· != .eq)), ("$gt", (· == .gt)), ("$gte", (· != .lt)), ("$lt", (· == .lt)),
    ("$lte", (· != .gt))]

variable {name : String} {holds : Ordering → Bool} {v w : Value}

theorem isOperatorName_of_mem_comparisons (h : (name, holds) ∈ comparisons) : isOperatorName name := by
  have hnames : ∀ entry ∈ comparisons, isOperatorName entry.1 := by decide
  exact hnames _ h

theorem Value.isArray_of_isObject (h : v.isObject) : v.isArray = false := by
  cases v with
  | array => exact Bool.noConfusion h
  | _ => rfl

/-! ### Conditions -/

namespace Condition

variable {search : Option TextSearch}

theorem test_equals (hw : w.isArray = false) : (equals v).test search [w] = .ok (w.compare v == .eq) := by
  have hitems : w.withItems = [w] := by
    cases w with
    | array => exact Bool.noConfusion hw
    | _ => rfl
  rw [test, someCandidate, List.any_cons, List.any_nil, Bool.or_false, findsEqual, hitems, List.any_cons, List.any_nil,
    Bool.or_false, Value.equal]
  exact fun h => nomatch h

theorem test_bounded {bound : Bound} (hw : w.isArray = false) (hnullish : w.isNullish = v.isNullish) :
    (bounded bound v).test search [w] = .ok (bound.admits (w.compare v)) := by
  have hscalar : findsWithin bound v w = liesWithin bound v w := by
    cases w with
    | array => exact Bool.noConfusion hw
    | _ => rfl
  rw [test, someCandidate, List.any_cons, List.any_nil, Bool.or_false, hscalar, liesWithin, hnullish, beq_self_eq_true,
    Bool.true_and]
  exact fun h => nomatch h

/-- As conditions, comparisons are equality, its negation and bounds. -/
theorem cases_of_mem_comparisons (h : (name, holds) ∈ comparisons) :
    (name = "$eq" ∧ holds = (· == .eq)) ∨ (name = "$ne" ∧ holds = (· != .eq)) ∨
      ∃ bound, FieldOperator.ofName? name = some (.bound bound) ∧ holds = bound.admits := by
  simp only [comparisons, List.mem_cons, Prod.mk.injEq, List.not_mem_nil, or_false] at h
  rcases h with h | h | ⟨rfl, rfl⟩ | ⟨rfl, rfl⟩ | ⟨rfl, rfl⟩ | ⟨rfl, rfl⟩
  · exact .inl h
  · exact .inr (.inl h)
  · exact .inr (.inr ⟨.above, rfl, by funext o; cases o <;> rfl⟩)
  · exact .inr (.inr ⟨.atLeast, rfl, by funext o; cases o <;> rfl⟩)
  · exact .inr (.inr ⟨.below, rfl, by funext o; cases o <;> rfl⟩)
  · exact .inr (.inr ⟨.atMost, rfl, by funext o; cases o <;> rfl⟩)

/-- A condition that compares passes the check and tells how the value at hand compares. -/
theorem test_comparison (search : Option TextSearch) (h : (name, holds) ∈ comparisons) (hw : w.isArray = false)
    (hnullish : w.isNullish = v.isNullish) :
    (ofValue (.object [(name, v)])).check = .ok () ∧
      (ofValue (.object [(name, v)])).test search [w] = .ok (holds (w.compare v)) := by
  rcases cases_of_mem_comparisons h with ⟨rfl, rfl⟩ | ⟨rfl, rfl⟩ | ⟨bound, hbound, rfl⟩
  · have heq : FieldOperator.ofName? "$eq" = some .eq := rfl
    rw [ofValue_operator heq, ofOperator, test_equals hw]
    exact ⟨rfl, rfl⟩
  · have hne : FieldOperator.ofName? "$ne" = some .ne := rfl
    rw [ofValue_operator hne, ofOperator, test, test_equals hw]
    exact ⟨rfl, rfl⟩
  · rw [ofValue_operator hbound, ofOperator, test_bounded hw hnullish]
    exact ⟨rfl, rfl⟩

end Condition

/-! ### Expressions -/

namespace Expr

variable {e f x y : Value} {p : String} {s : Scope}

theorem operator?_of_mem_comparisons (h : (name, holds) ∈ comparisons) :
    operator? name = some (Relation.test name holds) := by
  simp only [comparisons, List.mem_cons, Prod.mk.injEq, List.not_mem_nil, or_false] at h
  rcases h with ⟨rfl, rfl⟩ | ⟨rfl, rfl⟩ | ⟨rfl, rfl⟩ | ⟨rfl, rfl⟩ | ⟨rfl, rfl⟩ | ⟨rfl, rfl⟩ <;> rfl

theorem evaluate_comparison (h : (name, holds) ∈ comparisons) (he : evaluate e s = .ok x) (hf : evaluate f s = .ok y) :
    evaluate (.object [(name, .array [e, f])]) s = .ok (.bool (holds (x.compare y))) := by
  have harguments : (ofValue operator? (.array [e, f])).evalArguments s = .ok [x, y] := by
    rw [evaluate] at he hf
    rw [evalArguments, ofValue, arguments, ofItems_eq, List.map_cons, List.map_singleton, List.mapM_cons, he,
      List.mapM_cons, hf]
    rfl
  show evalObject operator? (ofFields operator? [(name, .array [e, f])]) s = _
  unfold evalObject
  rw [ofFields, ofFields, invocation?_singleton (isOperatorName_of_mem_comparisons h)]
  simp only [operator?_of_mem_comparisons h]
  rw [Relation.test, Relation.comparing, Operator.binary, harguments]
  rfl

theorem validate_literal : validate (.object [("$literal", v)]) = .ok () := by
  rw [validate, invocation?_singleton (by decide)]
  rfl

theorem validate_comparison (h : (name, holds) ∈ comparisons) (he : validate e = .ok ()) (hf : validate f = .ok ()) :
    validate (.object [(name, .array [e, f])]) = .ok () := by
  have hoperator : isOperator name := by rw [isOperator, operator?_of_mem_comparisons h, Option.isSome_some]
  have hliteral : name ≠ "$literal" := by
    have hnames : ∀ entry ∈ comparisons, entry.1 ≠ "$literal" := by decide
    exact hnames _ h
  have hitems : validate (.array [e, f]) = .ok () := by
    rw [validate, validateItems_eq_ok]
    simp [he, hf]
  rw [validate, invocation?_singleton (isOperatorName_of_mem_comparisons h)]
  simp only [bind, Except.bind, hoperator, hliteral, Bool.not_true, Bool.false_eq_true, ↓reduceIte]
  rw [validateFields_eq_ok, List.forall_mem_singleton]
  exact hitems

end Expr

/-! ### Queries -/

namespace Query

open DocQuery.Filter Value

/-- A comparison at a path through objects has the same answer as the comparison of the field path with the constant,
    where neither side is null or missing and no array is reached. -/
theorem testValue_comparison (search : Option TextSearch) {p : String} {d : Value}
    (h : (name, holds) ∈ comparisons) (hp : p ≠ "") (hname : isOperatorName p = false)
    (hobjects : ∀ s ∈ (Path.ofString p).stations d, s.isObject) (hw : (Path.ofString p).get? d = some w)
    (harray : w.isArray = false) (hnullish : w.isNullish = false) (hv : v.isNullish = false) :
    let condition := Value.object [(p, .object [(name, v)])]
    let expression := Value.object [(name, .array [.string ("$" ++ p), .object [("$literal", v)]])]
    testValue condition search d = testValue (.object [("$expr", expression)]) search d ∧
      testValue condition search d = .ok (holds (w.compare v)) := by
  intro condition expression
  have hexpression : testValue (.object [("$expr", expression)]) search d = .ok (holds (w.compare v)) := by
    have hread : Filter.ofValue (.object [("$expr", expression)]) = all [.holds expression] := rfl
    have hresolve : (Path.ofString p).resolve d = w := by
      rw [Path.resolve_eq_getD fun s hs => isArray_of_isObject (hobjects s hs), hw, Option.getD_some]
    have hpath : Expr.evaluate (.string ("$" ++ p)) { root := d } = .ok w := by
      rw [Expr.evaluate_path hp hname, hresolve]
    have hanswer : Expr.evaluateOn expression d = .ok (.bool (holds (w.compare v))) :=
      Expr.evaluate_comparison h hpath Expr.evaluate_literal
    rw [testValue_eq, hread, (Equivalent.all_singleton _).check, (Equivalent.all_singleton _).test, Filter.check,
      Filter.test, Expr.validate_comparison h rfl Expr.validate_literal, hanswer]
    rfl
  have hcondition : testValue condition search d = .ok (holds (w.compare v)) := by
    obtain ⟨hcheck, htest⟩ := Condition.test_comparison search h harray (hnullish.trans hv.symm)
    rw [testValue_eq, Filter.ofValue, ofFields_path hname, (Equivalent.all_singleton _).check,
      (Equivalent.all_singleton _).test, Filter.check, Filter.test, Path.candidates_of_get? hw, hcheck, htest]
    rfl
  exact ⟨hcondition.trans hexpression.symm, hcondition⟩

/-- A number is less than a string, on both sides. -/
theorem testValue_comparison_across_types :
    let order := Value.object [("item", .object [("price", .int 3)])]
    let condition := Value.object [("item.price", .object [("$lt", .string "3")])]
    let expression := Value.object
      [("$lt", .array [.string ("$" ++ "item.price"), .object [("$literal", .string "3")]])]
    (∀ s ∈ (Path.ofString "item.price").stations order, s.isObject) ∧
      testValue condition none order = testValue (.object [("$expr", expression)]) none order ∧
        testValue condition none order = .ok true := by
  intro order condition expression
  have hlt : ("$lt", (· == .lt)) ∈ comparisons := by simp [comparisons]
  have hobjects : ∀ s ∈ (Path.ofString "item.price").stations order, s.isObject := by decide
  exact ⟨hobjects, testValue_comparison none hlt (by decide) (by decide) hobjects rfl rfl rfl rfl⟩

end Query

end DocQuery
