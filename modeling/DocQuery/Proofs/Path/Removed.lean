import DocQuery.Proofs.Filter.Algebra
import DocQuery.Proofs.Path
import DocQuery.Proofs.Path.Beside

/-! What a removal leaves: nothing but gaps at its path, all that an expression sees beside it, and nothing to do for
    the same removal again. -/

namespace DocQuery

open Value

variable {segment : String} {rest path : Path} {v c : Value} {doc : Document} {f : Document → Document}

namespace Path

/-! ### What a filter sees -/

/-- If all candidates in an object are gaps once it is changed, then so they are in an array of such objects. -/
theorem candidates_within (hsegment : index? segment = none)
    (h : ∀ doc, (Value.object doc).Distinct → ∀ c ∈ candidates (segment :: rest) (.object (f doc)), c = .missing)
    (hv : v.Distinct) : ∀ c ∈ candidates (segment :: rest) (v.within f), c = .missing := by
  cases v with
  | array items =>
    intro c hc
    rw [within, candidates_items hsegment, List.flatMap_map] at hc
    obtain ⟨item, hitem, hc⟩ := List.mem_flatMap.mp hc
    -- What is seen in an item is a gap by the hypothesis, and an item in which nothing is seen shows as one.
    rcases mem_orGap.mp hc with hc | ⟨-, hc⟩
    · cases item with
      | object fields => exact h fields (hv.items _ hitem) c hc
      | _ => exact absurd hc List.not_mem_nil
    · exact hc
  | object fields => exact h fields hv
  | _ => exact List.forall_mem_nil _

theorem candidates_remove (hpath : path ≠ []) (hindex : ∀ segment ∈ path, index? segment = none)
    (h : (Value.object doc).Distinct) : ∀ c ∈ path.candidates (.object (path.remove doc)), c = .missing := by
  induction path generalizing doc with
  | nil => exact absurd rfl hpath
  | cons segment rest ih =>
    cases rest with
    | nil =>
      rw [remove, candidates, Fields.get?_erase h.proper.nodup]
      exact List.forall_mem_nil _
    | cons next rest =>
      have hrest := (List.forall_mem_cons.mp hindex).2
      rw [candidates, remove_cons_cons, Fields.get?_modify]
      cases hchild : doc.get? segment with
      | none => exact List.forall_mem_nil _
      | some child =>
        have hnext := (List.forall_mem_cons.mp hrest).1
        exact candidates_within hnext (fun doc hdoc => ih (List.cons_ne_nil _ _) hrest hdoc) (h.proper.get? hchild)

end Path

/-! ### Queries -/

namespace Query

open DocQuery.Filter

variable {name : String} {d : Value}

/-- Where a filter sees nothing but gaps, the path is not there. -/
theorem testValue_exists (search : Option TextSearch) (hname : isOperatorName name = false)
    (h : ∀ c ∈ (Path.ofString name).candidates d, c = .missing) :
    testValue (.object [(name, .object [("$exists", .bool true)])]) search d = .ok false := by
  have hpresent : FieldOperator.ofName? "$exists" = some .present := rfl
  have hany : ((Path.ofString name).candidates d).any (!·.isMissing) = false := by
    rw [List.any_eq_false]
    intro c hc
    rw [h c hc]
    exact Bool.false_ne_true
  rw [testValue_eq, Filter.ofValue, ofFields_path hname, Condition.ofValue_operator hpresent, Condition.ofOperator,
    (Equivalent.all_singleton _).check, (Equivalent.all_singleton _).test, Filter.check, Filter.test, Condition.test,
    isTruthy, if_pos rfl, hany]
  rfl

end Query

/-! ### Documents -/

namespace Path

/-- A removal leaves gaps at most where its path led to, so that the path is not there any more, and all that an
    expression sees at a path beside it. Made again it changes nothing. -/
theorem remove_exactly (text : String) (h : (Value.object doc).Distinct) :
    let path := ofString text
    ((∀ segment ∈ path, index? segment = none) →
      (∀ c ∈ path.candidates (.object (path.remove doc)), c = .missing) ∧
        (isOperatorName text = false → ∀ search,
          Query.testValue (.object [(text, .object [("$exists", .bool true)])]) search (.object (path.remove doc)) =
            .ok false)) ∧
      (∀ q : Path, ¬path <+: q → ¬q <+: path →
        q.resolve (.object (path.remove doc)) = q.resolve (.object doc)) ∧
      path.remove (path.remove doc) = path.remove doc := by
  intro path
  refine ⟨fun hindex => ?_, fun q hp hq => resolve_remove hp hq doc, remove_remove path h⟩
  have hgaps := candidates_remove (ofString_ne_nil text) hindex h
  exact ⟨hgaps, fun hname search => Query.testValue_exists search hname hgaps⟩

/-- The items of a cart lose their prices and keep their names. -/
theorem remove_exactly_prices :
    let cart : Document :=
      [("items", .array
        [.object [("price", .int 3), ("name", .string "pen")], .null, .array [.object [("price", .int 4)]]])]
    let price := ofString "items.price"
    let name := ofString "items.name"
    ((Value.object cart).Distinct ∧ (∀ segment ∈ price, index? segment = none) ∧
        isOperatorName "items.price" = false ∧ ¬price <+: name ∧ ¬name <+: price) ∧
      (∀ c ∈ price.candidates (.object (price.remove cart)), c = .missing) ∧
      Query.testValue (.object [("items.price", .object [("$exists", .bool true)])]) none
        (.object (price.remove cart)) = .ok false ∧
      name.resolve (.object (price.remove cart)) = name.resolve (.object cart) ∧
      price.remove (price.remove cart) = price.remove cart := by
  intro cart price name
  have hcart : (Value.object cart).Distinct :=
    (wellFormed_ofJson (.object [("items", .array [.object [("price", .integer 3), ("name", .string "pen")], .null,
      .array [.object [("price", .integer 4)]]])])).distinct
  have hindex : ∀ segment ∈ price, index? segment = none := by decide
  have hname : isOperatorName "items.price" = false := by decide
  have hp : ¬price <+: name := by decide
  have hq : ¬name <+: price := by decide
  obtain ⟨hgaps, hbeside, htwice⟩ := remove_exactly "items.price" hcart
  obtain ⟨hmissing, hexists⟩ := hgaps hindex
  exact ⟨⟨hcart, hindex, hname, hp, hq⟩, hmissing, hexists hname none, hbeside name hp hq, htwice⟩

end Path

end DocQuery
