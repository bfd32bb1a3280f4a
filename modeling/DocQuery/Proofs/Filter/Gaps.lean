import DocQuery.Filter.Test
import DocQuery.Proofs.Checked
import DocQuery.Proofs.Filter.Reading
import DocQuery.Proofs.Value.WellFormed

/-! Gaps. An item that a path does not reach shows as a missing candidate, where a path that is absent has no
    candidate at all. Most conditions ask each candidate by itself, and they say of a gap what they say of an absent
    path. A list of wanted values is the exception: an absent path has nothing that is wanted, but in a gap a null
    is found. -/

namespace DocQuery

open Checked Value

namespace Condition

variable {search : Option TextSearch} {c : Condition} {v : Value} {vs values : List Value}

/-! ### Candidates -/

theorem someCandidate_eq {absent : Bool} {test : Value → Bool} (h : vs ≠ []) :
    someCandidate absent test vs = vs.any test := by
  cases vs with
  | nil => exact absurd rfl h
  | cons => rfl

theorem anyM_ok (test : Value → Bool) (vs : List Value) :
    vs.anyM (fun v => (.ok (test v) : Checked Bool)) = .ok (vs.any test) := List.anyM_pure

theorem anyM_singleton (test : Value → Checked Bool) (v : Value) : [v].anyM test = test v := by
  rw [List.anyM_cons, List.anyM_nil]
  rcases test v with _ | _ | _ <;> rfl

theorem missing_equal (h : v ≠ missing) : missing.equal v = v.isNull := by
  cases v with
  | missing => exact absurd rfl h
  | _ => rfl

theorem findsEqual_missing (h : v ≠ missing) : findsEqual v missing = v.isNull := by
  rw [← missing_equal h]
  exact Bool.or_false _

theorem findsOneOf_missing (h : ∀ v ∈ values, v ≠ missing) : findsOneOf values missing = values.any isNull := by
  have hequal : values.any missing.equal = values.any isNull := by
    induction values with
    | nil => rfl
    | cons v rest ih =>
      obtain ⟨hv, hrest⟩ := List.forall_mem_cons.mp h
      rw [List.any_cons, List.any_cons, missing_equal hv, ih hrest]
  rw [← hequal]
  exact Bool.or_false _

theorem findsWithin_missing (bound : Bound) (limit : Value) :
    findsWithin bound limit missing = (limit.isNullish && bound.admits .eq) := by
  cases limit <;> rfl

/-! ### Conditions that ask each candidate -/

/-- The condition asks each candidate by itself, and does not look for what is missing. -/
def AsksEach : Condition → Prop
  | equals v => v ≠ missing
  | oneOf values => ∀ v ∈ values, v ≠ missing
  | allOf _ | allOfNoArray | not _ => False
  | _ => True

namespace AsksEach

theorem test_eq_anyM (h : c.AsksEach) (hvs : vs ≠ []) : c.test search vs = vs.anyM fun v => c.test search [v] := by
  cases c with
  | allOf | allOfNoArray | not => exact h.elim
  | invalid cause met =>
    obtain ⟨v, rest, rfl⟩ := List.exists_cons_of_ne_nil hvs
    rfl
  | item | itemObject => simp only [Condition.test, someItem, anyM_singleton]
  -- The fault is met iff some candidate is an array, and a search meets it at the first one.
  | itemNoObject =>
    clear hvs
    induction vs with
    | nil => rfl
    | cons v rest ih =>
      rw [List.anyM_cons, ← ih]
      cases hv : v.isArray <;> simp [Condition.test, hv, bind, Except.bind]
  | present wanted =>
    have hempty : vs.isEmpty = false := List.isEmpty_eq_false_iff.mpr hvs
    cases wanted <;> simp [Condition.test, anyM_ok, hempty]
  | _ =>
    simp only [Condition.test, someCandidate_eq hvs, someCandidate_eq (List.cons_ne_nil _ _), anyM_ok, List.any_cons,
      List.any_nil, Bool.or_false]

/-- A gap is asked like an absent path. -/
theorem test_gap (h : c.AsksEach) : c.test search [missing] = c.test search [] := by
  cases c with
  | allOf | allOfNoArray | not => exact h.elim
  | equals wanted => exact congrArg Except.ok ((Bool.or_false _).trans (findsEqual_missing h))
  | oneOf values => exact congrArg Except.ok ((Bool.or_false _).trans (findsOneOf_missing h))
  | bounded bound limit => exact congrArg Except.ok ((Bool.or_false _).trans (findsWithin_missing bound limit))
  | present wanted => cases wanted <;> rfl
  | _ => rfl

end AsksEach

/-! ### Wanted values -/

/-- Is null what is wanted? -/
def wantsNull : Condition → Bool
  | equals v => v.isNull
  | _ => false

/-- Does the condition want some values, perhaps behind negations, all of which are null? -/
def wantsOnlyNulls : Condition → Bool
  | allOf wanted => !wanted.isEmpty && wanted.all wantsNull
  | not condition => condition.wantsOnlyNulls
  | _ => false

theorem AsksEach.wantsOnlyNulls (h : c.AsksEach) : c.wantsOnlyNulls = false := by
  cases c with
  | allOf | allOfNoArray | not => exact h.elim
  | _ => rfl

/-- A condition on an item finds none in a gap. -/
theorem test_item_gap (search : Option TextSearch) (v : Value) :
    (ofOperator .item v).test search [missing] = .ok false ∧ (ofOperator .item v).wantsNull = false := by
  cases v with
  | object fields =>
    rw [ofOperator]
    split <;> exact ⟨rfl, rfl⟩
  | _ => exact ⟨rfl, rfl⟩

/-- In a gap a wanted value is found iff it is null. -/
theorem test_wanted_gap : ∀ {values}, (∀ v ∈ values, v ≠ missing) →
    ∀ c ∈ ofWanted values, c.test search [missing] = .ok c.wantsNull
  | [], _ => List.forall_mem_nil _
  | v :: rest, h => by
    obtain ⟨hv, hrest⟩ := List.forall_mem_cons.mp h
    rw [ofWanted_cons]
    refine List.forall_mem_cons.mpr ⟨?_, test_wanted_gap hrest⟩
    split
    · obtain ⟨htest, hwants⟩ := test_item_gap search _
      rw [htest, hwants]
    · exact congrArg Except.ok ((Bool.or_false _).trans (findsEqual_missing hv))

theorem testConditions_gap : ∀ {conditions : List Condition},
    (∀ c ∈ conditions, c.test search [missing] = .ok c.wantsNull) →
      testConditions search conditions [missing] = .ok (conditions.all wantsNull)
  | [], _ => rfl
  | c :: rest, h => by
    obtain ⟨hc, hrest⟩ := List.forall_mem_cons.mp h
    rw [testConditions, hc, List.all_cons]
    cases c.wantsNull
    · rfl
    · exact testConditions_gap hrest

/-! ### Gaps and absent paths -/

/-- The condition tells a gap from an absent path iff it wants only nulls. -/
def GapsApart (search : Option TextSearch) (c : Condition) : Prop :=
  c.test search [missing] = c.test search [] ↔ c.wantsOnlyNulls = false

theorem gapsApart_of_asksEach (h : c.AsksEach) : c.GapsApart search := iff_of_true h.test_gap h.wantsOnlyNulls

theorem gapsApart_not (h : c.GapsApart search) : (not c).GapsApart search := by
  refine Iff.trans ?_ h
  rw [Condition.test, Condition.test]
  exact not_inj

theorem gapsApart_allOf (h : ∀ v ∈ values, v ≠ missing) : (allOf (ofWanted values)).GapsApart search := by
  unfold GapsApart wantsOnlyNulls
  rw [Condition.test, Condition.test, testConditions_gap (test_wanted_gap h)]
  cases (ofWanted values).isEmpty <;> simp

theorem gapsApart_refused (fault : Fault) : (refused fault).GapsApart search := gapsApart_of_asksEach trivial

end Condition

/-- The operator asks each candidate by itself. -/
def FieldOperator.asksEach : FieldOperator → Bool
  | ne | noneOf | allOf | not => false
  | _ => true

namespace Condition

variable {search : Option TextSearch} {v : Value}

theorem asksEach_ofArgument {α : Type} {argument : Checked α} {condition : α → Condition}
    (h : ∀ a, (condition a).AsksEach) : (ofArgument argument condition).AsksEach := by
  cases argument with
  | ok a => exact h a
  | error fault => exact trivial

theorem asksEach_ofOperator {operator : FieldOperator} (h : operator.asksEach) (hv : v.Whole) :
    (ofOperator operator v).AsksEach := by
  cases operator with
  | ne | noneOf | allOf | not => exact Bool.noConfusion h
  | eq =>
    rw [ofOperator]
    exact hv.ne_missing
  | bound | present =>
    rw [ofOperator]
    exact trivial
  | oneOf =>
    cases v with
    | array values => exact fun v hmem => (hv.items v hmem).ne_missing
    | _ => exact trivial
  | item =>
    cases v with
    | object fields =>
      rw [ofOperator]
      split <;> exact trivial
    | _ => exact trivial
  | size | typed | regex | mod | bits =>
    rw [ofOperator]
    exact asksEach_ofArgument fun _ => trivial

theorem gapsApart_ofOperator_step (operator : FieldOperator) (hv : v.Whole)
    (hfields : ∀ fields, v = .object fields → ∀ f ∈ fields, ∀ operator, (ofOperator operator f.2).GapsApart search) :
    (ofOperator operator v).GapsApart search := by
  cases operator with
  | ne =>
    rw [ofOperator]
    exact gapsApart_not (gapsApart_of_asksEach hv.ne_missing)
  | noneOf =>
    cases v with
    | array values =>
      exact gapsApart_not (gapsApart_of_asksEach fun v hmem => (hv.items v hmem).ne_missing)
    | _ => exact gapsApart_of_asksEach trivial
  | allOf =>
    cases v with
    | array values => exact gapsApart_allOf fun v hmem => (hv.items v hmem).ne_missing
    | _ => exact iff_of_true rfl rfl
  | not =>
    cases v with
    | object fields =>
      refine gapsApart_not ?_
      -- What is negated is one condition of the operators inside, or a fault in their place.
      rcases alone_cases fields (ofOperators (Fields.get? fields "$options") fields) with hmem | ⟨fault, heq⟩
      · obtain ⟨entry, hentry, ⟨p, heq⟩ | ⟨operator, -, heq⟩ | ⟨fault, heq⟩⟩ := comesFrom_of_mem hmem
        · rw [heq]
          exact gapsApart_of_asksEach trivial
        · rw [heq]
          exact hfields fields rfl entry hentry operator
        · rw [heq]
          exact gapsApart_refused fault
      · rw [heq]
        exact gapsApart_refused fault
    | _ => exact gapsApart_refused _
  | _ => exact gapsApart_of_asksEach (asksEach_ofOperator rfl hv)

/-- Whatever an operator is asked, it says of a gap what it says of an absent path, unless it wants only nulls. -/
theorem test_gap_eq_iff (search : Option TextSearch) (operator : FieldOperator) (h : v.Whole) :
    (ofOperator operator v).test search [missing] = (ofOperator operator v).test search [] ↔
      (ofOperator operator v).wantsOnlyNulls = false := by
  induction v generalizing operator with
  | object fields ih =>
    refine gapsApart_ofOperator_step operator h fun _ heq f hf operator => ?_
    cases heq
    exact ih f hf operator (h.of_fields f hf)
  | _ => exact gapsApart_ofOperator_step operator h fun _ heq => nomatch heq

/-- Behind a negation, some wanted value is not null. -/
theorem test_gap_eq_iff_behind_not :
    let v := Value.object [("$all", .array [.null, .int 1])]
    v.Whole ∧ (ofOperator .not v).wantsOnlyNulls = false ∧
      (ofOperator .not v).test none [missing] = (ofOperator .not v).test none [] := by
  intro v
  have hitems : (Value.array [.null, .int 1]).Whole :=
    .array (List.forall_mem_cons.mpr ⟨.scalar rfl, List.forall_mem_singleton.mpr (.scalar rfl)⟩)
  have hwhole : v.Whole := .object (List.forall_mem_singleton.mpr hitems)
  have hwants : (ofOperator .not v).wantsOnlyNulls = false := by rfl
  exact ⟨hwhole, hwants, (test_gap_eq_iff none .not hwhole).mpr hwants⟩

/-- Null alone is wanted: it is found in a gap, and not where the path is absent. -/
theorem not_test_gap_eq :
    ¬∀ (search : Option TextSearch) (operator : FieldOperator) (v : Value), v.Whole →
      (ofOperator operator v).check = .ok () →
        (ofOperator operator v).test search [missing] = (ofOperator operator v).test search [] := by
  intro h
  have hwhole : (Value.array [.null]).Whole := .array (List.forall_mem_singleton.mpr (.scalar rfl))
  have heq : (Except.ok true : Checked Bool) = .ok false := h none .allOf (.array [.null]) hwhole rfl
  cases heq

end Condition

end DocQuery
