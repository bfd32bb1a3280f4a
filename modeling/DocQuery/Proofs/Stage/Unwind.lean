import DocQuery.Proofs.Checked
import DocQuery.Proofs.Path.Set
import DocQuery.Stage

/-! Unwinding arrays. A document in which an array is found leaves one document for each of its items, in their order.
    Navigation finds the array, and a write puts the item in its place. The two go the same way unless a step stands on
    an array itself, so the item is where the array was iff no step does. -/

namespace DocQuery

variable {u : Unwinding} {path : Path} {d : Document} {items : List Value} {item : Value}

/-- The path leads to the item, and paths beside it lead to what they led to before. -/
structure Path.Replaces (path : Path) (item before after : Value) : Prop where
  item : path.get? after = some item
  beside : ∀ q : Path, ¬path <+: q → ¬q <+: path → q.get? after = q.get? before

/-- A write replaces what its path found, or some step of the walk stands on an array and the path does not find what
    was written. -/
theorem Path.replaces_set_iff (hpath : path ≠ []) (hbefore : path.get? (.object d) ≠ some item) :
    path.Replaces item (.object d) (.object (path.set item d)) ↔
      ∀ s ∈ path.stations (.object d), s.isArray = false := by
  rw [object_set hpath]
  exact ⟨fun h => stations_of_get?_put h.item hbefore, fun h => ⟨get?_put h, fun _ => get?_put_beside h⟩⟩

theorem Unwinding.applyTo_of_items (hindex : u.index = none) (hget : u.path.get? (.object d) = some (.array items))
    (hitems : items ≠ []) : u.applyTo d = items.map fun item => .object (u.path.set item d) := by
  obtain ⟨first, rest, rfl⟩ := List.exists_cons_of_ne_nil hitems
  have hwith : ∀ index doc, u.withIndex index doc = .object doc := by
    intro index doc
    rw [withIndex, hindex]
  rw [applyTo, hget]
  simp only [hwith]
  -- The positions are not used.
  have hfst := congrArg (List.map fun item => Value.object (u.path.set item d)) (List.zipIdx_map_fst 0 (first :: rest))
  rw [List.map_map] at hfst
  exact hfst

/-- An array is none of its items. -/
theorem Value.ne_array_of_mem (h : item ∈ items) : item ≠ .array items := by
  rintro rfl
  have hlt := List.sizeOf_lt_of_mem h
  rw [array.sizeOf_spec] at hlt
  omega

namespace Stage

/-- What an unwinding makes of the documents comes out one after the other. -/
theorem run_unwind (u : Unwinding) (setting : Setting) (name : String) (docs : List Document) :
    (unwind u).run setting name (docs.map .object) = .ok (docs.flatMap u.applyTo) := by
  have hlists : (docs.map Value.object).mapM (fun v => do return u.applyTo (← expectDocument name v)) =
      (.ok (docs.map u.applyTo) : Checked (List (List Value))) := by
    rw [List.mapM_map]
    exact Checked.mapM_ok fun d _ => rfl
  rw [run, hlists, List.flatMap_def]
  rfl

/-- For a document in which the path finds an array with items there is one document for each item, in their order,
    between those for the documents before and behind it. The item replaces the array in its document iff no step of
    the walk to the array stands on an array. -/
theorem unwind_replaces_iff (hindex : u.index = none) (hget : u.path.get? (.object d) = some (.array items))
    (hitems : items ≠ []) :
    ∃ outs, (∀ setting name (before after : List Document),
        (unwind u).run setting name ((before ++ d :: after).map .object) =
          .ok (before.flatMap u.applyTo ++ outs ++ after.flatMap u.applyTo)) ∧
      List.Forall₂ (fun item out => u.path.Replaces item (.object d) out ↔
        ∀ s ∈ u.path.stations (.object d), s.isArray = false) items outs := by
  have hpath : u.path ≠ [] := by
    intro hnil
    rw [hnil] at hget
    cases hget
  refine ⟨u.applyTo d, fun setting name before after => ?_, ?_⟩
  · rw [run_unwind, List.flatMap_append, List.flatMap_cons, List.append_assoc]
  · rw [Unwinding.applyTo_of_items hindex hget hitems, List.forall₂_map_right_iff]
    -- An item is never the array that it is in, so what the path finds must have been written.
    refine List.forall₂_same.mpr fun item hitem => Path.replaces_set_iff hpath fun hsame => ?_
    rw [hget] at hsame
    exact Value.ne_array_of_mem hitem (Option.some.inj hsame).symm

/-- Two lines of an order, next to a number. -/
theorem unwind_replaces_lines :
    let u : Unwinding := { path := Path.ofString "order.lines" }
    let items : List Value := [.int 3, .object [("cup", .int 1)]]
    let d : Document := [("order", .object [("number", .int 7), ("lines", .array items)]), ("open", .bool true)]
    (u.index = none ∧ u.path.get? (.object d) = some (.array items) ∧ items ≠ []) ∧
      ∃ outs, (∀ setting name (before after : List Document),
          (unwind u).run setting name ((before ++ d :: after).map .object) =
            .ok (before.flatMap u.applyTo ++ outs ++ after.flatMap u.applyTo)) ∧
        List.Forall₂ (fun item out => u.path.Replaces item (.object d) out) items outs := by
  intro u items d
  have hget : u.path.get? (.object d) = some (.array items) := rfl
  have hwalk : ∀ s ∈ u.path.stations (.object d), s.isArray = false := by decide
  obtain ⟨outs, hrun, houts⟩ := unwind_replaces_iff rfl hget (List.cons_ne_nil _ _)
  exact ⟨⟨rfl, hget, List.cons_ne_nil _ _⟩, outs, hrun, houts.imp fun _ _ h => h.mpr hwalk⟩

/-- The array is the first item of another array. Its items are written to a field `0` of that item. -/
theorem not_unwind_replaces_nested :
    let u : Unwinding := { path := Path.ofString "a.0" }
    let items : List Value := [.int 1, .int 2]
    let d : Document := [("a", .array [.array items])]
    let outs : List Value := items.map fun item => .object [("a", .array [.object [("0", item)]])]
    ofSpecification "$unwind" (.string "$a.0") = .ok (.unwind u) ∧ u.index = none ∧
      u.path.get? (.object d) = some (.array items) ∧ (unwind u).run {} "$unwind" [.object d] = .ok outs ∧
        ¬List.Forall₂ (fun item out => u.path.Replaces item (.object d) out) items outs := by
  intro u items d outs
  refine ⟨rfl, rfl, rfl, rfl, fun h => ?_⟩
  obtain ⟨hfirst, -⟩ := List.forall₂_cons.mp h
  have hread : u.path.get? (.object [("a", .array [.object [("0", .int 1)]])]) = some (.object [("0", .int 1)]) := rfl
  exact nomatch hread.symm.trans hfirst.item

end Stage

end DocQuery
