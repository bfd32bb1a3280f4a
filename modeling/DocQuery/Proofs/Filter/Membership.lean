import DocQuery.Proofs.Filter.Algebra
import DocQuery.Proofs.Filter.Check
import DocQuery.Proofs.Filter.Gaps

/-! Lists of values to be found. One of them is found iff the filters that ask for one value each hold of some, none iff
    they hold of none, and all iff they hold together, where the path reaches something. -/

namespace DocQuery

open Checked Value

variable {search : Option TextSearch} {d v : Value} {vs listed : List Value} {p name : String}

/-! ### Parts that answer -/

section Answers

variable {α : Type} {as : List α} {f : α → Filter} {c : α → Condition} {found : α → Bool}

theorem testAny_of_answers (h : ∀ a ∈ as, (f a).test search d = .ok (found a)) :
    testAny search (as.map f) d = .ok (as.any found) := by
  induction as with
  | nil => rfl
  | cons a rest ih =>
    obtain ⟨ha, hrest⟩ := List.forall_mem_cons.mp h
    rw [List.map_cons, testAny, ha, List.any_cons, ih hrest]
    cases found a <;> rfl

theorem testAll_of_answers (h : ∀ a ∈ as, (f a).test search d = .ok (found a)) :
    testAll search (as.map f) d = .ok (as.all found) := by
  induction as with
  | nil => rfl
  | cons a rest ih =>
    obtain ⟨ha, hrest⟩ := List.forall_mem_cons.mp h
    rw [List.map_cons, testAll, ha, List.all_cons, ih hrest]
    cases found a <;> rfl

theorem testConditions_of_answers (h : ∀ a ∈ as, (c a).test search vs = .ok (found a)) :
    testConditions search (as.map c) vs = .ok (as.all found) := by
  induction as with
  | nil => rfl
  | cons a rest ih =>
    obtain ⟨ha, hrest⟩ := List.forall_mem_cons.mp h
    rw [List.map_cons, testConditions, ha, List.all_cons, ih hrest]
    cases found a <;> rfl

end Answers

/-! ### Conditions -/

namespace Condition

/-- Is the value found among the candidates? -/
def isFound (vs : List Value) (v : Value) : Bool := someCandidate v.isNull (findsEqual v) vs

theorem test_equals_eq (search : Option TextSearch) (v : Value) (vs : List Value) :
    (equals v).test search vs = .ok (isFound vs v) := by
  rw [Condition.test]
  rfl

/-- Two searches may be made in either order. -/
theorem any_comm {α β : Type} (f : α → β → Bool) (xs : List α) (ys : List β) :
    (xs.any fun x => ys.any (f x)) = ys.any fun y => xs.any fun x => f x y := by
  refine Bool.eq_iff_iff.mpr ?_
  simp only [List.any_eq_true]
  constructor
  · rintro ⟨x, hx, y, hy, hf⟩
    exact ⟨y, hy, x, hx, hf⟩
  · rintro ⟨y, hy, x, hx, hf⟩
    exact ⟨x, hx, y, hy, hf⟩

theorem findsOneOf_eq (listed : List Value) (w : Value) : findsOneOf listed w = listed.any fun v => findsEqual v w :=
  any_comm equal w.withItems listed

/-- One of the listed values is found iff some of them is. -/
theorem someCandidate_findsOneOf (listed vs : List Value) :
    someCandidate (listed.any isNull) (findsOneOf listed) vs = listed.any (isFound vs) := by
  cases vs with
  | nil => rfl
  | cons w rest =>
    rw [funext (findsOneOf_eq listed)]
    exact any_comm (fun w v => findsEqual v w) (w :: rest) listed

/-! ### Reading -/

theorem ofValue_equals (v : Value) : ofValue (.object [("$eq", v)]) = equals v := by
  have hname : FieldOperator.ofName? "$eq" = some .eq := rfl
  rw [ofValue_operator hname, ofOperator]

theorem ofValue_oneOf (listed : List Value) : ofValue (.object [("$in", .array listed)]) = oneOf listed := by
  have hname : FieldOperator.ofName? "$in" = some .oneOf := rfl
  rw [ofValue_operator hname, ofOperator]

theorem ofValue_noneOf (listed : List Value) : ofValue (.object [("$nin", .array listed)]) = not (oneOf listed) := by
  have hname : FieldOperator.ofName? "$nin" = some .noneOf := rfl
  rw [ofValue_operator hname, ofOperator]

theorem ofValue_allOf (listed : List Value) :
    ofValue (.object [("$all", .array listed)]) = allOf (ofWanted listed) := by
  have hname : FieldOperator.ofName? "$all" = some .allOf := rfl
  rw [ofValue_operator hname, ofOperator]

theorem ofWanted_eq_map (h : ∀ v ∈ listed, ∀ w, v ≠ .object [("$elemMatch", w)]) :
    ofWanted listed = listed.map equals := by
  induction listed with
  | nil => rfl
  | cons v rest ih =>
    obtain ⟨hv, hrest⟩ := List.forall_mem_cons.mp h
    rw [ofWanted_cons, ih hrest, List.map_cons]
    refine congrArg (· :: _) ?_
    split
    · next w => exact absurd rfl (hv w)
    · rfl

end Condition

namespace Query

open DocQuery.Filter

/-- The filter of one operator at a path. -/
def condition (p name : String) (v : Value) : Value := .object [(p, .object [(name, v)])]

/-- Is the value found at the path? -/
def found (p : String) (d v : Value) : Bool := Condition.isFound ((Path.ofString p).candidates d) v

theorem test_oneOf (search : Option TextSearch) (d : Value) (listed : List Value) :
    (Condition.oneOf listed).test search ((Path.ofString p).candidates d) = .ok (listed.any (found p d)) := by
  rw [Condition.test, Condition.someCandidate_findsOneOf]
  rfl

theorem test_allOf (search : Option TextSearch) (hsome : listed ≠ [])
    (hplain : ∀ v ∈ listed, ∀ w, v ≠ .object [("$elemMatch", w)]) (hreached : (Path.ofString p).candidates d ≠ []) :
    (Condition.allOf (Condition.ofWanted listed)).test search ((Path.ofString p).candidates d) =
      .ok (listed.all (found p d)) := by
  have hasked : ((listed.map Condition.equals).isEmpty || ((Path.ofString p).candidates d).isEmpty) = false := by
    simp [hsome, hreached]
  rw [Condition.ofWanted_eq_map hplain, Condition.test, hasked]
  exact testConditions_of_answers fun v _ => Condition.test_equals_eq search v _

/-! ### Filters -/

section

variable (hp : isOperatorName p = false)

include hp

theorem ofValue_condition (name : String) (v : Value) : (Filter.ofValue (condition p name v)).Equivalent
    (.field (Path.ofString p) (Condition.ofValue (.object [(name, v)]))) := by
  rw [condition, Filter.ofValue, ofFields_path hp]
  exact .all_singleton _

theorem testValue_condition {c : Condition} (hread : Condition.ofValue (.object [(name, v)]) = c)
    (hcheck : c.check = .ok ()) :
    testValue (condition p name v) search d = c.test search ((Path.ofString p).candidates d) := by
  have hfilter := ofValue_condition hp name v
  rw [testValue_eq, hfilter.check, hfilter.test, Filter.check, Filter.test, hread, hcheck]
  rfl

theorem check_equals (v : Value) : (Filter.ofValue (condition p "$eq" v)).check = .ok () := by
  rw [(ofValue_condition hp "$eq" v).check, Condition.ofValue_equals]
  rfl

theorem test_equals (search : Option TextSearch) (d v : Value) :
    (Filter.ofValue (condition p "$eq" v)).test search d = .ok (found p d v) := by
  rw [(ofValue_condition hp "$eq" v).test, Condition.ofValue_equals, Filter.test, Condition.test_equals_eq, found]

theorem checkFilters_equals (listed : List Value) :
    checkFilters ((listed.map (condition p "$eq")).map Filter.ofValue) = .ok () := by
  refine checkFilters_eq_ok.mpr ?_
  simp only [List.map_map, List.forall_mem_map, Function.comp_apply]
  exact fun v _ => check_equals hp v

theorem testValue_disjunction (search : Option TextSearch) (d : Value) (listed : List Value) :
    testValue (disjunction (listed.map (condition p "$eq"))) search d = .ok (listed.any (found p d)) := by
  have hread := ofValue_disjunction (listed.map (condition p "$eq"))
  rw [testValue_eq, hread.check, hread.test, Filter.check, Filter.test, checkFilters_equals hp, List.map_map]
  exact testAny_of_answers fun v _ => test_equals hp search d v

theorem testValue_rejection (search : Option TextSearch) (d : Value) (listed : List Value) :
    testValue (rejection (listed.map (condition p "$eq"))) search d = .ok (!listed.any (found p d)) := by
  have hread := ofValue_rejection (listed.map (condition p "$eq"))
  have hany : testAny search (listed.map fun v => Filter.ofValue (condition p "$eq" v)) d =
      .ok (listed.any (found p d)) := testAny_of_answers fun v _ => test_equals hp search d v
  rw [testValue_eq, hread.check, hread.test, Filter.check, Filter.check, Filter.test, Filter.test,
    checkFilters_equals hp, List.map_map]
  exact congrArg (fun answer => do return !(← answer)) hany

theorem testValue_conjunction (search : Option TextSearch) (d : Value) (listed : List Value) :
    testValue (conjunction (listed.map (condition p "$eq"))) search d = .ok (listed.all (found p d)) := by
  have hread := ofValue_conjunction (listed.map (condition p "$eq"))
  rw [testValue_eq, hread.check, hread.test, Filter.check, Filter.test, checkFilters_equals hp, List.map_map]
  exact testAll_of_answers fun v _ => test_equals hp search d v

end

/-- Whether listed values are found at a path is a Boolean combination of what is answered for each of them. -/
theorem testValue_membership (search : Option TextSearch) (d : Value) (listed : List Value)
    (hp : isOperatorName p = false) :
    ∃ found : Value → Bool, (∀ v, testValue (condition p "$eq" v) search d = .ok (found v)) ∧
      (testValue (condition p "$in" (.array listed)) search d = .ok (listed.any found) ∧
        testValue (disjunction (listed.map (condition p "$eq"))) search d = .ok (listed.any found)) ∧
      (testValue (condition p "$nin" (.array listed)) search d = .ok (!listed.any found) ∧
        testValue (rejection (listed.map (condition p "$eq"))) search d = .ok (!listed.any found)) ∧
      (listed ≠ [] → (∀ v ∈ listed, ∀ w, v ≠ .object [("$elemMatch", w)]) → (Path.ofString p).candidates d ≠ [] →
        testValue (condition p "$all" (.array listed)) search d = .ok (listed.all found) ∧
          testValue (conjunction (listed.map (condition p "$eq"))) search d = .ok (listed.all found)) := by
  refine ⟨found p d, fun v => ?_, ⟨?_, testValue_disjunction hp search d listed⟩,
    ⟨?_, testValue_rejection hp search d listed⟩, fun hsome hplain hreached =>
      ⟨?_, testValue_conjunction hp search d listed⟩⟩
  · exact (testValue_condition hp (Condition.ofValue_equals v) rfl).trans (Condition.test_equals_eq search v _)
  · exact (testValue_condition hp (Condition.ofValue_oneOf listed) rfl).trans (test_oneOf search d listed)
  · rw [testValue_condition hp (Condition.ofValue_noneOf listed) rfl, Condition.test, test_oneOf]
    rfl
  · exact (testValue_condition hp (Condition.ofValue_allOf listed) rfl).trans
      (test_allOf search hsome hplain hreached)

/-- Red is found in one good, and null in the other one, which has no color. -/
theorem testValue_membership_colors :
    let d := Value.object [("goods", .array [.object [("color", .string "red")], .object []])]
    let listed := [Value.string "red", .null]
    let p := "goods.color"
    (isOperatorName p = false ∧ listed ≠ [] ∧ (∀ v ∈ listed, ∀ w, v ≠ .object [("$elemMatch", w)]) ∧
      (Path.ofString p).candidates d ≠ []) ∧
      testValue (condition p "$in" (.array listed)) none d =
        testValue (disjunction (listed.map (condition p "$eq"))) none d ∧
      testValue (condition p "$nin" (.array listed)) none d =
        testValue (rejection (listed.map (condition p "$eq"))) none d ∧
      testValue (condition p "$all" (.array listed)) none d =
        testValue (conjunction (listed.map (condition p "$eq"))) none d := by
  intro d listed p
  have hp : isOperatorName p = false := by decide
  have hsome : listed ≠ [] := List.cons_ne_nil _ _
  have hplain : ∀ v ∈ listed, ∀ w, v ≠ .object [("$elemMatch", w)] := by simp [listed]
  have hreached : (Path.ofString p).candidates d ≠ [] := by decide
  obtain ⟨found, -, ⟨hin, hany⟩, ⟨hnin, hnone⟩, hasked⟩ := testValue_membership none d listed hp
  obtain ⟨hall, hboth⟩ := hasked hsome hplain hreached
  exact ⟨⟨hp, hsome, hplain, hreached⟩, hin.trans hany.symm, hnin.trans hnone.symm, hall.trans hboth.symm⟩

end Query

end DocQuery
