import DocQuery.Proofs.Filter.Algebra
import DocQuery.Proofs.Filter.Gaps
import DocQuery.Proofs.Path

/-! Paths that spread over the items of an array. A condition that asks each candidate by itself holds at such a path
    iff it holds at the rest of the path in some item, whether an item has several values there or shows a gap. So a
    condition at a path through an array of objects is a condition on some object of the array. -/

namespace DocQuery

open Value

/-! ### Conditions -/

namespace Condition

variable {search : Option TextSearch} {c : Condition} {items : List Value}

theorem anyM_append (test : Value → Checked Bool) : ∀ vs ws : List Value,
    (vs ++ ws).anyM test = vs.anyM test >>= fun found => if found then .ok true else ws.anyM test
  | [], _ => rfl
  | v :: rest, ws => by
    rw [List.cons_append, List.anyM_cons, List.anyM_cons, anyM_append test rest ws, bind_assoc]
    refine bind_congr fun found => ?_
    cases found <;> rfl

theorem anyM_flatMap (test : Value → Checked Bool) (f : Value → List Value) (vs : List Value) :
    (vs.flatMap f).anyM test = vs.anyM fun v => (f v).anyM test := by
  induction vs with
  | nil => rfl
  | cons v rest ih =>
    rw [List.flatMap_cons, anyM_append, ih, List.anyM_cons]
    rfl

theorem anyM_congr {test test' : Value → Checked Bool} : ∀ {vs : List Value}, (∀ v ∈ vs, test v = test' v) →
    vs.anyM test = vs.anyM test'
  | [], _ => rfl
  | v :: rest, h => by
    obtain ⟨hv, hrest⟩ := List.forall_mem_cons.mp h
    rw [List.anyM_cons, List.anyM_cons, hv, anyM_congr hrest]

theorem AsksEach.test_orGap (h : c.AsksEach) (found : List Value) :
    c.test search (Path.orGap found) = c.test search found := by
  cases found with
  | nil => exact h.test_gap
  | cons => rfl

/-- What is found in several items, or is a gap in them, is asked item by item. -/
theorem AsksEach.test_flatMap (h : c.AsksEach) (found : Value → List Value) (hitems : items ≠ []) :
    c.test search (items.flatMap fun item => Path.orGap (found item)) =
      items.anyM fun item => c.test search (found item) := by
  have hfound : items.flatMap (fun item => Path.orGap (found item)) ≠ [] := by
    obtain ⟨item, rest, rfl⟩ := List.exists_cons_of_ne_nil hitems
    exact List.append_ne_nil_of_left_ne_nil (Path.orGap_ne_nil _) _
  rw [h.test_eq_anyM hfound, anyM_flatMap]
  refine anyM_congr fun item _ => ?_
  rw [← h.test_eq_anyM (Path.orGap_ne_nil _), h.test_orGap]

end Condition

/-! ### Reading -/

theorem FieldOperator.asksEach_of_ofName? {name : String} {operator : FieldOperator} (h : ofName? name = some operator)
    (hname : name ∉ ["$ne", "$nin", "$not", "$all"]) : operator.asksEach := by
  have hnames : ∀ entry ∈ fieldOperators, entry.1 ∉ ["$ne", "$nin", "$not", "$all"] → entry.2.asksEach := by decide
  exact hnames _ (mem_of_ofName? h) hname

/-- An object of one operator asks each candidate, unless the operator negates or lists what is wanted. -/
theorem Condition.asksEach_ofValue {name : String} {v : Value} (hname : name ∉ ["$ne", "$nin", "$not", "$all"])
    (hv : v.Whole) : (Condition.ofValue (.object [(name, v)])).AsksEach := by
  rw [Condition.ofValue]
  split
  · exact nofun
  · split
    · exact trivial
    · rcases alone_cases [(name, v)] (ofOperators (Fields.get? [(name, v)] "$options") [(name, v)]) with
        hmem | ⟨fault, heq⟩
      · obtain ⟨entry, hentry, ⟨p, heq⟩ | ⟨operator, hoperator, heq⟩ | ⟨fault, heq⟩⟩ := comesFrom_of_mem hmem
        · rw [heq]
          exact trivial
        · obtain rfl := List.mem_singleton.mp hentry
          rw [heq]
          exact asksEach_ofOperator (FieldOperator.asksEach_of_ofName? hoperator hname) hv
        · rw [heq]
          exact trivial
      · rw [heq]
        exact trivial

namespace Filter

/-- A condition under a path among the objects of an array. -/
theorem ofValue_elemMatch {f x : String} (hf : '.' ∉ f.toList) (hname : isOperatorName f = false)
    (hx : isOperatorName x = false) (v : Value) :
    ofValue (.object [(f, .object [("$elemMatch", .object [(x, v)])])]) =
      all [field [f] (.itemObject (all [field (Path.ofString x) (Condition.ofValue v)]))] := by
  have hoperators : Condition.areOperators [(x, v)] = false := by
    have hoptions : x ≠ "$options" := by
      rintro rfl
      exact Bool.noConfusion hx
    simp [Condition.areOperators, Fields.names, hoptions, FieldOperator.ofName?_eq_none hx]
  have hitem : FieldOperator.ofName? "$elemMatch" = some .item := rfl
  rw [ofValue, ofFields_path hname, Path.ofString_of_not_mem hf, Condition.ofValue_operator hitem, Condition.ofOperator,
    if_neg (Bool.eq_false_iff.mp hoperators), ofFields_path hx]

/-- At a path that spreads over the objects of an array a condition holds iff some object passes it. -/
theorem test_field_spread {search : Option TextSearch} {c : Condition} {f segment : String} {rest : Path}
    {fields : Document} {items : List Value} (h : c.AsksEach) (hsegment : Path.index? segment = none)
    (hitems : Fields.get? fields f = some (.array items)) (hne : items ≠ [])
    (hobjects : ∀ item ∈ items, item.isObject) :
    (field (f :: segment :: rest) c).test search (.object fields) =
      (field [f] (.itemObject (all [field (segment :: rest) c]))).test search (.object fields) := by
  rw [Filter.test, Filter.test, Path.candidates, Path.candidates, hitems]
  dsimp only
  rw [Path.candidates_items hsegment, h.test_flatMap _ hne, Path.candidates, Condition.test, Condition.someItem,
    Condition.anyM_singleton]
  refine Condition.anyM_congr fun item hitem => ?_
  rw [if_pos (hobjects item hitem), if_pos (hobjects item hitem), (Equivalent.all_singleton _).test, Filter.test]

end Filter

/-! ### Queries -/

namespace Query

open DocQuery.Filter

/-- A condition at a path through an array of objects, and the condition on an object of the array, have the same
    answer or the same fault, unless the condition is a negation or lists what is wanted. -/
theorem testValue_spread (search : Option TextSearch) {f x operator : String} {v : Value} {fields : Document}
    {items : List Value} (hf : '.' ∉ f.toList) (hname : isOperatorName f = false) (hx : isOperatorName x = false)
    (hfirst : ∀ segment ∈ (Path.ofString x).head?, Path.index? segment = none)
    (hoperator : operator ∉ ["$ne", "$nin", "$not", "$all"]) (hv : v.Whole)
    (hitems : Fields.get? fields f = some (.array items)) (hne : items ≠ [])
    (hobjects : ∀ item ∈ items, item.isObject) :
    testValue (.object [(f ++ "." ++ x, .object [(operator, v)])]) search (.object fields) =
      testValue (.object [(f, .object [("$elemMatch", .object [(x, .object [(operator, v)])])])]) search
        (.object fields) := by
  have hasks := Condition.asksEach_ofValue hoperator hv
  rw [testValue_eq, testValue_eq, Filter.ofValue, ofFields_path (isOperatorName_append hname), Path.ofString_append hf,
    ofValue_elemMatch hf hname hx]
  generalize Condition.ofValue (.object [(operator, v)]) = c at hasks
  obtain ⟨segment, rest, hpath⟩ := List.exists_cons_of_ne_nil (Path.ofString_ne_nil x)
  have hsegment : Path.index? segment = none := hfirst segment (by rw [hpath]; rfl)
  rw [hpath]
  -- Both sides keep the one condition, so they report the same fault if it does not pass the check.
  have hcheck : (all [field (f :: segment :: rest) c]).check =
      (all [field [f] (.itemObject (all [field (segment :: rest) c]))]).check := by
    rw [(Equivalent.all_singleton _).check, (Equivalent.all_singleton _).check, Filter.check, Filter.check,
      Condition.check, (Equivalent.all_singleton _).check, Filter.check]
  rw [hcheck, (Equivalent.all_singleton _).test, (Equivalent.all_singleton _).test,
    test_field_spread hasks hsegment hitems hne hobjects]

/-- The second item of the cart has no price, which is seen on both sides. -/
theorem testValue_spread_unpriced :
    let cart := Value.object [("cart", .array [.object [("price", .int 3)], .object [("name", .string "pen")]])]
    testValue (.object [("cart.price", .object [("$exists", .bool false)])]) none cart =
      testValue (.object [("cart", .object [("$elemMatch", .object [("price", .object [("$exists", .bool false)])])])])
        none cart := by
  intro cart
  have hpath : "cart.price" = "cart" ++ "." ++ "price" := by decide
  have hobjects : ∀ item ∈ [Value.object [("price", .int 3)], .object [("name", .string "pen")]], item.isObject := by
    simp [isObject]
  rw [hpath]
  exact testValue_spread none (by decide) (by decide) (by decide) (by decide) (by decide) (.scalar rfl) rfl
    (List.cons_ne_nil _ _) hobjects

end Query

end DocQuery
