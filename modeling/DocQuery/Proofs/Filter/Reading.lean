import DocQuery.Filter.Reader
import DocQuery.Proofs.Fields

/-! Reading filters part by part. The clauses of a filter, the filters of an array and the wanted values of a list
    are read one by one. An object of operators stands for the condition of one of them, or is refused. -/

namespace DocQuery

/-! ### Names -/

namespace FieldOperator

variable {name : String} {operator : FieldOperator}

theorem mem_of_ofName? (h : ofName? name = some operator) : (name, operator) ∈ fieldOperators :=
  Fields.mem_of_get?_eq_some h

theorem isOperatorName_of_ofName? (h : ofName? name = some operator) : isOperatorName name := by
  have hnames : ∀ entry ∈ fieldOperators, isOperatorName entry.1 := by decide
  exact hnames _ (mem_of_ofName? h)

theorem ofName?_eq_none (h : isOperatorName name = false) : ofName? name = none := by
  cases hname : ofName? name with
  | none => rfl
  | some operator => exact Bool.noConfusion (h.symm.trans (isOperatorName_of_ofName? hname))

end FieldOperator

/-! ### Conditions -/

namespace Condition

variable {c : Condition} {fields : Document} {conditions : List Condition}

theorem ofWanted_cons (v : Value) (rest : List Value) : ofWanted (v :: rest) =
    (match v with
      | .object [("$elemMatch", v)] => ofOperator .item v
      | v => .equals v) :: ofWanted rest := by
  split <;> rw [ofWanted]
  assumption

/-- An argument makes its condition or is refused. -/
theorem ofArgument_cases {α : Type} (argument : Checked α) (condition : α → Condition) :
    (∃ a, ofArgument argument condition = condition a) ∨ ∃ fault, ofArgument argument condition = refused fault := by
  cases argument with
  | ok a => exact .inl ⟨a, rfl⟩
  | error fault => exact .inr ⟨fault, rfl⟩

/-- The condition comes from the entry of an operator: it is a pattern, what the operator makes of its argument, or
    refused. -/
def ComesFrom (c : Condition) (entry : String × Value) : Prop :=
  (∃ p, c = pattern p) ∨ (∃ operator, FieldOperator.ofName? entry.1 = some operator ∧ c = ofOperator operator entry.2) ∨
    ∃ fault, c = refused fault

theorem comesFrom_of_mem {options : Option Value} : ∀ {fields}, c ∈ ofOperators options fields →
    ∃ entry ∈ fields, c.ComesFrom entry
  | [], h => nomatch h
  | (name, v) :: rest, h => by
    have hrest : c ∈ ofOperators options rest → ∃ entry ∈ (name, v) :: rest, c.ComesFrom entry := fun h => by
      obtain ⟨entry, hentry, hc⟩ := comesFrom_of_mem h
      exact ⟨entry, List.mem_cons_of_mem _ hentry, hc⟩
    rw [ofOperators] at h
    split at h
    · exact hrest h
    · rcases List.mem_cons.mp h with rfl | h
      · refine ⟨(name, v), List.mem_cons_self, ?_⟩
        split
        · exact (ofArgument_cases _ _).imp_right .inr
        · next hname => exact .inr (.inl ⟨_, hname, rfl⟩)
        · exact .inr (.inr ⟨_, rfl⟩)
      · exact hrest h

theorem alone_cases (fields : Document) (conditions : List Condition) :
    alone fields conditions ∈ conditions ∨ ∃ fault, alone fields conditions = refused fault := by
  unfold alone together
  split
  · next c hc =>
    split at hc
    · exact .inr ⟨_, (List.singleton_inj.mp hc).symm⟩
    · exact .inl (hc ▸ List.mem_singleton_self c)
  · exact .inr ⟨_, rfl⟩

/-- An object of one operator is what the operator makes of its argument. -/
theorem ofValue_operator {name : String} {operator : FieldOperator} (h : FieldOperator.ofName? name = some operator)
    (v : Value) : ofValue (.object [(name, v)]) = ofOperator operator v := by
  have hname := FieldOperator.isOperatorName_of_ofName? h
  have hoptions : name ≠ "$options" := by
    rintro rfl
    cases h
  have hget : Fields.get? [(name, v)] "$options" = none := by simp [Fields.get?, hoptions]
  have hpattern : lacksPattern [(name, v)] = false := by simp [lacksPattern, Fields.contains, hoptions]
  rw [ofValue, if_neg (by simp [hname]), if_neg (by simp [hname]), hget, ofOperators, if_neg hoptions, h, ofOperators,
    alone, together, hpattern]
  cases operator with
  | regex =>
    rw [ofOperator]
    rfl
  | _ => rfl

end Condition

/-! ### Filters -/

namespace Filter

theorem ofItems_eq : ∀ items, ofItems items = items.map ofValue
  | [] => rfl
  | item :: rest => by rw [ofItems, ofItems_eq rest, List.map_cons]

/-- Each clause is read by itself. -/
theorem ofFields_eq : ∀ fields : Document, ofFields fields = (fields.map fun clause => ofFields [clause]).flatten
  | [] => rfl
  | clause :: rest => by
    rw [List.map_cons, List.flatten_cons, ← ofFields_eq rest]
    rfl

theorem ofFields_path {name : String} (h : isOperatorName name = false) (v : Value) :
    ofFields [(name, v)] = [field (Path.ofString name) (Condition.ofValue v)] := by
  rw [ofFields, ofFields, if_neg (Bool.eq_false_iff.mp h)]

end Filter

end DocQuery
