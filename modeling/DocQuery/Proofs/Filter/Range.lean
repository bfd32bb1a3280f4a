import DocQuery.Proofs.Filter.Comparison
import DocQuery.Proofs.Filter.Membership
import DocQuery.Proofs.Value.Millis

/-! Bounds and equality. What lies within a bound that admits equality is what lies strictly within it and what is equal,
    whatever a path reaches: bounds set null apart and compare an array with arrays only, but values of different kinds
    are never equal. On a single value that is neither an array nor null just one side of a bound, or equality, holds. -/

namespace DocQuery

open Value

variable {search : Option TextSearch} {v w : Value} {vs : List Value} {strict wide : Bound}

namespace Value

theorem isNullish_eq_rank (v : Value) : v.isNullish = (v.rank == 0) := by
  cases v <;> rfl

theorem isArray_eq_rank (v : Value) : v.isArray = (v.rank == 4) := by
  cases v <;> rfl

theorem isNullish_eq_isNull (h : v ≠ missing) : v.isNullish = v.isNull := by
  cases v with
  | missing => exact absurd rfl h
  | _ => rfl

end Value

/-- The second bound admits what the first one admits and what is equal. -/
def Bound.Widens (strict wide : Bound) : Prop := ∀ o, wide.admits o = (strict.admits o || o == .eq)

theorem Bound.widens_atLeast : above.Widens atLeast := fun o => by cases o <;> rfl

theorem Bound.widens_atMost : below.Widens atMost := fun o => by cases o <;> rfl

namespace Condition

/-! ### Single values -/

theorem liesWithin_wide (h : strict.Widens wide) (v w : Value) :
    liesWithin wide v w = (liesWithin strict v w || w.equal v) := by
  unfold liesWithin equal
  rw [h]
  by_cases heq : w.compare v = .eq
  · have hnullish : w.isNullish = v.isNullish := by
      rw [isNullish_eq_rank, isNullish_eq_rank, rank_of_compare_eq heq]
    simp [heq, hnullish]
  · rw [beq_false_of_ne heq, Bool.or_false, Bool.or_false]

/-- An array is found equal, as a whole, only if the limit is an array. -/
theorem equal_array (items : List Value) (v : Value) :
    (array items).equal v = (v.isArray && (array items).equal v) := by
  cases hequal : (array items).equal v with
  | false => rw [Bool.and_false]
  | true =>
    have hrank : (array items).rank = v.rank := rank_of_compare_eq (beq_iff_eq.mp hequal)
    rw [Bool.and_true, isArray_eq_rank, ← hrank]
    rfl

theorem any_or {α : Type} (f g : α → Bool) (xs : List α) : (xs.any fun x => f x || g x) = (xs.any f || xs.any g) := by
  refine Bool.eq_iff_iff.mpr ?_
  simp only [Bool.or_eq_true, List.any_eq_true, and_or_left, exists_or]

theorem findsWithin_wide (h : strict.Widens wide) (v w : Value) :
    findsWithin wide v w = (findsWithin strict v w || findsEqual v w) := by
  cases w with
  | array items =>
    rw [findsWithin, findsWithin, findsEqual, withItems, List.any_cons, equal_array, liesWithin_wide h,
      Bool.and_or_distrib_left, funext (liesWithin_wide h v), any_or]
    ac_rfl
  | _ => exact (liesWithin_wide h v _).trans (congrArg _ (Bool.or_false _).symm)

/-! ### Candidates -/

/-- Does some candidate lie within the bound? -/
def isWithin (bound : Bound) (vs : List Value) (v : Value) : Bool :=
  someCandidate (v.isNullish && bound.admits .eq) (findsWithin bound v) vs

theorem test_bounded_eq (search : Option TextSearch) (bound : Bound) (v : Value) (vs : List Value) :
    (bounded bound v).test search vs = .ok (isWithin bound vs v) := by
  rw [Condition.test]
  rfl

theorem isWithin_wide (h : strict.Widens wide) (hv : v ≠ missing) (vs : List Value) :
    isWithin wide vs v = (isWithin strict vs v || isFound vs v) := by
  unfold isWithin isFound
  cases vs with
  | nil =>
    rw [someCandidate, someCandidate, someCandidate, isNullish_eq_isNull hv, h .eq]
    cases v.isNull with
    | false => rfl
    | true => simp
  | cons w rest =>
    rw [someCandidate_eq (List.cons_ne_nil _ _), someCandidate_eq (List.cons_ne_nil _ _),
      someCandidate_eq (List.cons_ne_nil _ _), funext (findsWithin_wide h v), any_or]

/-! ### Operators -/

theorem test_ofValue_bound {name : String} {bound : Bound} (h : FieldOperator.ofName? name = some (.bound bound))
    (search : Option TextSearch) (v : Value) (vs : List Value) :
    (ofValue (.object [(name, v)])).test search vs = .ok (isWithin bound vs v) := by
  rw [ofValue_operator h, ofOperator, test_bounded_eq]

/-- A value that is neither an array nor null is below, equal or above. -/
theorem count_sides (harray : w.isArray = false) (hnullish : w.isNullish = v.isNullish) :
    [isWithin .below [w] v, isFound [w] v, isWithin .above [w] v].count true = 1 := by
  have hbound : ∀ bound : Bound, isWithin bound [w] v = bound.admits (w.compare v) := fun bound =>
    Except.ok.inj ((test_bounded_eq none bound v [w]).symm.trans (test_bounded harray hnullish))
  have hequal : isFound [w] v = (w.compare v == .eq) :=
    Except.ok.inj ((test_equals_eq none v [w]).symm.trans (test_equals harray))
  rw [hbound, hbound, hequal]
  cases w.compare v <;> rfl

/-- Operators for ranges agree with equality on whatever a path reaches, and on a single value that is neither an array
    nor null exactly one of three answers. -/
theorem test_range (search : Option TextSearch) (hv : v ≠ missing) (vs : List Value) :
    ∃ below equal above : Bool,
      (ofValue (.object [("$lt", v)])).test search vs = .ok below ∧
      (ofValue (.object [("$eq", v)])).test search vs = .ok equal ∧
      (ofValue (.object [("$gt", v)])).test search vs = .ok above ∧
      (ofValue (.object [("$lte", v)])).test search vs = .ok (below || equal) ∧
      (ofValue (.object [("$gte", v)])).test search vs = .ok (above || equal) ∧
      ∀ w, vs = [w] → w.isArray = false → w.isNullish = false → v ≠ null →
        [below, equal, above].count true = 1 := by
  refine ⟨isWithin .below vs v, isFound vs v, isWithin .above vs v, test_ofValue_bound rfl search v vs, ?_,
    test_ofValue_bound rfl search v vs, ?_, ?_, ?_⟩
  · rw [ofValue_equals, test_equals_eq]
  · rw [← isWithin_wide Bound.widens_atMost hv]
    exact test_ofValue_bound rfl search v vs
  · rw [← isWithin_wide Bound.widens_atLeast hv]
    exact test_ofValue_bound rfl search v vs
  · rintro w rfl harray hw hnull
    refine count_sides harray (hw.trans ?_)
    cases v with
    | missing => exact absurd rfl hv
    | null => exact absurd rfl hnull
    | _ => rfl

/-- Scores on both sides of five beside a gap, and one score. -/
theorem test_range_scores :
    let v := Value.int 5
    let scores := [Value.array [.int 3, .int 7], .missing]
    let score := Value.int 3
    (v ≠ missing ∧ score.isArray = false ∧ score.isNullish = false ∧ v ≠ null) ∧
      (∃ equal above : Bool, (ofValue (.object [("$eq", v)])).test none scores = .ok equal ∧
        (ofValue (.object [("$gt", v)])).test none scores = .ok above ∧
        (ofValue (.object [("$gte", v)])).test none scores = .ok (above || equal)) ∧
      ∃ below equal above : Bool, (ofValue (.object [("$lt", v)])).test none [score] = .ok below ∧
        (ofValue (.object [("$eq", v)])).test none [score] = .ok equal ∧
        (ofValue (.object [("$gt", v)])).test none [score] = .ok above ∧
        [below, equal, above].count true = 1 := by
  intro v scores score
  have hv : v ≠ missing := nofun
  have hnull : v ≠ null := nofun
  obtain ⟨-, equal, above, -, hequal, habove, -, hatLeast, -⟩ := test_range none hv scores
  obtain ⟨below, same, beyond, hbelow, hsame, hbeyond, -, -, hone⟩ := test_range none hv [score]
  exact ⟨⟨hv, rfl, rfl, hnull⟩, ⟨equal, above, hequal, habove, hatLeast⟩, below, same, beyond, hbelow, hsame, hbeyond,
    hone score rfl rfl rfl hnull⟩

end Condition

end DocQuery
