import DocQuery.Proofs.Path.Reached
import DocQuery.Proofs.Path.Remove

/-! What an expression sees beside a path that is written or removed. A removal leaves it as it was. A write does so iff
    no array that the two paths come to has an array among its items: an object is put in the place of such an item,
    and what the expression saw in it is lost. -/

namespace DocQuery

open Value

namespace Path

variable {segment other : String} {rest p q : Path} {v x : Value} {items : List Value} {f : Document → Document}

/-! ### Arrays in arrays -/

/-- No array that both paths come to has an array among its items. -/
def FlatAlong (p q : Path) (x : Value) : Prop :=
  ∀ r, r <+: p → r <+: q → ItemsAmong (·.isArray = false) r x

theorem flatAlong_cons_of_not_array (hx : x.isArray = false) :
    FlatAlong (segment :: p) (other :: q) x ↔ (segment = other → FlatAlong p q (fieldOf segment x)) := by
  unfold FlatAlong
  simp only [forall_common_cons, itemsAmong_cons_of_not_array hx]
  exact and_iff_right (itemsAmong_of_not_array hx)

theorem flatAlong_cons_array : FlatAlong (segment :: p) (other :: q) (.array items) ↔
    ∀ item ∈ items, item.isArray = false ∧ (segment = other → FlatAlong p q (fieldOf segment item)) := by
  unfold FlatAlong
  simp only [forall_common_cons, itemsAmong_array, itemsAmong_cons_array]
  constructor
  · rintro ⟨hhere, hrest⟩ item hitem
    exact ⟨hhere item hitem, fun h r hp hq => hrest h r hp hq item hitem⟩
  · intro h
    exact ⟨fun item hitem => (h item hitem).1, fun heq r hp hq item hitem => (h item hitem).2 heq r hp hq⟩

/-! ### Writing -/

theorem fieldOf_graft : fieldOf other (graft (segment :: rest) v x) =
    if segment = other then rest.put v (fieldOf segment x) else fieldOf other x := by
  rw [graft, set_cons, fieldOf_insert]
  rfl

theorem resolve_graft : resolve (other :: q) (graft (segment :: p) v x) =
    q.resolve (if segment = other then p.put v (fieldOf segment x) else fieldOf other x) := by
  rw [resolve_of_not_array rfl, fieldOf_graft]

/-- Where an expression sees nothing, it sees nothing after a write beside it. -/
theorem resolve_put_of_missing (hp : ¬p <+: q) (hq : ¬q <+: p) (h : q.resolve x = .missing) :
    q.resolve (p.put v x) = .missing := by
  induction p generalizing q x with
  | nil => exact absurd List.nil_prefix hp
  | cons segment p ih =>
    cases q with
    | nil => exact absurd List.nil_prefix hq
    | cons other q =>
      -- In an array an expression sees a list at least, so it sees nothing only elsewhere.
      have hx := not_array_of_resolve h
      rw [resolve_of_not_array hx] at h
      rw [put_cons hx, resolve_graft]
      split
      · next hsegment =>
        subst hsegment
        rw [List.prefix_cons_inj] at hp hq
        exact ih hp hq h
      · exact h

theorem resolve_graft_of_missing (hp : ¬segment :: p <+: other :: q) (hq : ¬other :: q <+: segment :: p)
    (h : resolve (other :: q) x = .missing) : resolve (other :: q) (graft (segment :: p) v x) = .missing := by
  rw [← put_cons (not_array_of_resolve h)]
  exact resolve_put_of_missing hp hq h

/-- An array among the items of an array is lost. -/
theorem resolve_graft_array_ne (hp : ¬segment :: p <+: other :: q) (hq : ¬other :: q <+: segment :: p) :
    resolve (other :: q) (graft (segment :: p) v (.array items)) ≠ resolve (other :: q) (.array items) := by
  have hgraft : graft (segment :: p) v (.array items) = graft (segment :: p) v .missing := rfl
  rw [hgraft, resolve_graft_of_missing hp hq (resolve_missing _)]
  exact ne_missing_resolve_array.symm

theorem resolve_graft_eq_iff (hx : x.isArray = false) :
    resolve (other :: q) (graft (segment :: p) v x) = resolve (other :: q) x ↔
      (segment = other → q.resolve (p.put v (fieldOf segment x)) = q.resolve (fieldOf segment x)) := by
  rw [resolve_graft, resolve_of_not_array hx]
  by_cases hsegment : segment = other
  · rw [if_pos hsegment, hsegment, forall_prop_of_true rfl]
  · rw [if_neg hsegment]
    exact iff_of_true rfl fun h => absurd h hsegment

theorem resolve_put_eq_iff (hp : ¬p <+: q) (hq : ¬q <+: p) :
    q.resolve (p.put v x) = q.resolve x ↔ FlatAlong p q x := by
  induction p generalizing q x with
  | nil => exact absurd List.nil_prefix hp
  | cons segment p ih =>
    cases q with
    | nil => exact absurd List.nil_prefix hq
    | cons other q =>
      -- Behind two different segments nothing changes, and nothing is asked for.
      have hrest : ∀ x, (segment = other → resolve q (put p v x) = resolve q x) ↔
          (segment = other → FlatAlong p q x) := by
        intro x
        refine forall_congr' fun hsegment => ?_
        rw [hsegment, List.prefix_cons_inj] at hp hq
        exact ih hp hq
      cases hx : x.isArray with
      | false => rw [put_cons hx, resolve_graft_eq_iff hx, flatAlong_cons_of_not_array hx, hrest]
      | true =>
        obtain ⟨items, rfl⟩ := exists_array hx
        rw [put, resolve_array, resolve_array, array.injEq, found_map, found_eq_iff, flatAlong_cons_array]
        · refine forall₂_congr fun item _ => ?_
          cases hitem : item.isArray with
          | false => rw [Function.comp_apply, resolve_graft_eq_iff hitem, hrest, and_iff_right rfl]
          | true =>
            -- An array among the items is overwritten by an object, in which an expression sees no list.
            obtain ⟨_, rfl⟩ := exists_array hitem
            exact iff_of_false (resolve_graft_array_ne hp hq) fun h => Bool.noConfusion h.1
        · exact fun item _ => resolve_graft_of_missing hp hq

/-- What an expression sees beside a write stays as it was iff no array that the two paths come to has an array among
    its items. -/
theorem resolve_set_eq_iff (hp : ¬p <+: q) (hq : ¬q <+: p) (v : Value) (doc : Document) :
    q.resolve (.object (p.set v doc)) = q.resolve (.object doc) ↔ FlatAlong p q (.object doc) := by
  have hpath : p ≠ [] := by
    rintro rfl
    exact hp List.nil_prefix
  rw [object_set hpath]
  exact resolve_put_eq_iff hp hq

/-- The items of a cart are paid. One of them was no object, and no array. -/
theorem resolve_set_eq_paid :
    let cart : Document := [("items", .array [.object [("price", .int 3)], .string "pen"])]
    let paid := ofString "items.paid"
    let price := ofString "items.price"
    (¬paid <+: price ∧ ¬price <+: paid ∧ FlatAlong paid price (.object cart)) ∧
      price.resolve (.object (paid.set (.bool true) cart)) = price.resolve (.object cart) := by
  intro cart paid price
  have hpaid : ¬paid <+: price := by decide
  have hprice : ¬price <+: paid := by decide
  have hflat : FlatAlong paid price (.object cart) := by
    show FlatAlong ["items", "paid"] ["items", "price"] _
    refine (flatAlong_cons_of_not_array rfl).mpr fun _ => ?_
    show FlatAlong _ _ (.array [.object [("price", .int 3)], .string "pen"])
    simp [flatAlong_cons_array, isArray]
  exact ⟨⟨hpaid, hprice, hflat⟩, (resolve_set_eq_iff hpaid hprice (.bool true) cart).mpr hflat⟩

/-- An object with the new field takes the place of an array in an array. -/
theorem not_resolve_set_eq_nested :
    let doc : Document := [("a", .array [.array [.object [("c", .int 1)]]])]
    let p := ofString "a.b"
    let q := ofString "a.c"
    ¬p <+: q ∧ ¬q <+: p ∧ p.set (.int 2) doc = [("a", .array [.object [("b", .int 2)]])] ∧
      q.resolve (.object doc) = .array [.array [.int 1]] ∧
        q.resolve (.object (p.set (.int 2) doc)) ≠ q.resolve (.object doc) := by
  intro doc p q
  have hafter : q.resolve (.object (p.set (.int 2) doc)) = .array [] := rfl
  have hbefore : q.resolve (.object doc) = .array [.array [.int 1]] := rfl
  refine ⟨by decide, by decide, rfl, hbefore, ?_⟩
  rw [hafter, hbefore]
  simp

/-! ### Removing -/

theorem fieldOf_remove_of_ne (h : other ≠ segment) (rest : Path) (doc : Document) :
    fieldOf segment (.object (remove (other :: rest) doc)) = fieldOf segment (.object doc) :=
  congrArg (·.getD .missing) (get?_remove_of_ne h rest doc)

theorem fieldOf_remove (segment next : String) (rest : Path) (doc : Document) :
    fieldOf segment (.object (remove (segment :: next :: rest) doc)) =
      (fieldOf segment (.object doc)).within (remove (next :: rest)) := by
  rw [fieldOf, fieldsOf, remove_cons_cons, Fields.get?_modify, fieldOf, fieldsOf]
  cases doc.get? segment <;> rfl

/-- A change of objects that an expression does not see in the objects themselves it does not see in an array either. -/
theorem resolve_within
    (h : ∀ doc, resolve (segment :: rest) (.object (f doc)) = resolve (segment :: rest) (.object doc)) (x : Value) :
    resolve (segment :: rest) (x.within f) = resolve (segment :: rest) x := by
  cases x with
  | array items =>
    rw [within, resolve_array, resolve_array, found_map]
    refine congrArg array (found_congr fun item _ => ?_)
    cases item with
    | object fields => exact h fields
    | _ => rfl
  | object fields => exact h fields
  | _ => rfl

theorem resolve_remove (hp : ¬p <+: q) (hq : ¬q <+: p) (doc : Document) :
    q.resolve (.object (p.remove doc)) = q.resolve (.object doc) := by
  induction p generalizing q doc with
  | nil => exact absurd List.nil_prefix hp
  | cons segment p ih =>
    cases q with
    | nil => exact absurd List.nil_prefix hq
    | cons other q =>
      rw [resolve_of_not_array rfl, resolve_of_not_array rfl]
      by_cases hsegment : segment = other
      · subst hsegment
        rw [List.prefix_cons_inj] at hp hq
        -- Neither path ends here, as it would be a beginning of the other one.
        obtain ⟨next, p, rfl⟩ := List.exists_cons_of_ne_nil fun hnil : p = [] => hp (hnil ▸ List.nil_prefix)
        obtain ⟨next', q, rfl⟩ := List.exists_cons_of_ne_nil fun hnil : q = [] => hq (hnil ▸ List.nil_prefix)
        rw [fieldOf_remove]
        exact resolve_within (ih hp hq) _
      · rw [fieldOf_remove_of_ne hsegment]

end Path

end DocQuery
