import DocQuery.Proofs.Fields.Adjust
import DocQuery.Proofs.Path.Reached

/-! Two paths copied into one document, one after the other. What an expression sees at the first path stays as it was,
    unless one of the paths continues the other through an array with other items than objects: a copy through an array
    leaves those out, and a copy of the array has them. -/

namespace DocQuery

open Value

namespace Path

variable {segment other : String} {rest path p q : Path} {x there child : Value} {items : List Value}
  {source target : Document}

/-! ### One step of a copy -/

/-- The objects among the items. -/
abbrev objectsOf (items : List Value) : List Document := items.filterMap toObject?

/-- The places for copies of objects: those of an array of as many items that is already there, or new ones. -/
def placesFor (objects : List Document) : Value → List Value
  | .array places => if places.length = objects.length then places else objects.map fun _ => .object []
  | _ => objects.map fun _ => .object []

/-- What stands at the end of a step is changed like this when the rest of the path is copied from `x`. -/
def paste : Path → Value → Value → Value
  | [], x, _ => x
  | segment :: rest, .object inner, there => .object (copy (segment :: rest) inner (fieldsOf there))
  | segment :: rest, .array items, there =>
    .array ((placesFor (objectsOf items) there).zipWith (fun place inner => match place with
      | .object out => .object (copy (segment :: rest) inner out)
      | place => place) (objectsOf items))
  | _, _, there => there

theorem copy_of_get?_none (h : source.get? segment = none) (rest : Path) (target : Document) :
    copy (segment :: rest) source target = target := by
  rw [copy, h]

/-- Something is copied at the end of a path, and along the way from objects and arrays. -/
theorem copy_of_get? (h : source.get? segment = some child) (rest : Path) (target : Document) :
    copy (segment :: rest) source target =
      if rest.isEmpty || child.isArray || child.isObject then
        target.insert segment (paste rest child (fieldOf segment (.object target)))
      else target := by
  rw [copy, h]
  cases rest with
  | nil => rfl
  | cons next rest =>
    cases child with
    | array items =>
      rw [fieldOf, fieldsOf]
      rcases target.get? segment with _ | there
      · rfl
      · cases there <;> rfl
    | _ => rfl

theorem paste_missing (path : Path) : paste path .missing .missing = .missing := by
  cases path <;> rfl

theorem fieldOf_copy_of_ne (h : segment ≠ other) (rest : Path) (source target : Document) :
    fieldOf other (.object (copy (segment :: rest) source target)) = fieldOf other (.object target) := by
  rcases hget : source.get? segment with _ | child
  · rw [copy_of_get?_none hget]
  · rw [copy_of_get? hget]
    split
    · rw [fieldOf_insert, if_neg h]
    · rfl

theorem fieldOf_copy (h : source.get? segment = none → fieldOf segment (.object target) = .missing) (rest : Path) :
    fieldOf segment (.object (copy (segment :: rest) source target)) =
      paste rest (fieldOf segment (.object source)) (fieldOf segment (.object target)) := by
  rcases hget : source.get? segment with _ | child
  · rw [copy_of_get?_none hget, fieldOf_of_get?_none hget, h hget, paste_missing]
  · rw [copy_of_get? hget, fieldOf_of_get? hget]
    split
    · rw [fieldOf_insert, if_pos rfl]
    · next hscalar =>
      -- A scalar with a path still to go is not copied, and to paste it changes nothing either.
      cases rest with
      | nil => exact absurd rfl hscalar
      | cons =>
        cases child with
        | array | object => exact absurd rfl hscalar
        | _ => rfl

theorem paste_array {f : Document → Document}
    (h : placesFor (objectsOf items) there = (objectsOf items).map fun inner => .object (f inner)) :
    paste (segment :: rest) (.array items) there =
      .array ((objectsOf items).map fun inner => .object (copy (segment :: rest) inner (f inner))) := by
  rw [paste, h, List.zipWith_map_left, List.zipWith_self]

/-! ### One copy -/

/-- What a copy makes of a value where nothing was before. -/
def copied (path : Path) (x : Value) : Value := path.paste x .missing

theorem copied_array : copied (segment :: rest) (.array items) =
    .array ((objectsOf items).map fun inner => .object (copy (segment :: rest) inner [])) :=
  paste_array (f := fun _ => []) rfl

theorem fieldOf_copied (segment : String) (rest : Path) (source : Document) :
    fieldOf segment (.object (copy (segment :: rest) source [])) = rest.copied (fieldOf segment (.object source)) :=
  fieldOf_copy (fun _ => rfl) rest

theorem object_mem_of_mem_objectsOf {inner : Document} (h : inner ∈ objectsOf items) : .object inner ∈ items := by
  obtain ⟨item, hitem, hinner⟩ := List.mem_filterMap.mp h
  cases item with
  | object fields => exact Option.some.inj hinner ▸ hitem
  | _ => exact nomatch hinner

theorem map_objectsOf (h : ∀ item ∈ items, item.isObject) : (objectsOf items).map object = items := by
  induction items with
  | nil => rfl
  | cons item rest ih =>
    obtain ⟨hitem, hrest⟩ := List.forall_mem_cons.mp h
    cases item with
    | object fields => exact congrArg (object fields :: ·) (ih hrest)
    | _ => exact Bool.noConfusion hitem

/-- A copy of a value into itself changes nothing if only objects are among the items of the arrays on the way. -/
theorem paste_self (h : ∀ r, Before r path → ItemsAmong (·.isObject) r x) : path.paste x x = x := by
  induction path generalizing x with
  | nil => rfl
  | cons segment rest ih =>
    obtain ⟨hhere, hrest⟩ := forall_before_cons.mp h
    -- Objects come first, as an array is pasted object by object.
    have hcopy : ∀ inner : Document,
        (∀ r, Before r rest → ItemsAmong (·.isObject) r (fieldOf segment (.object inner))) →
        copy (segment :: rest) inner inner = inner := by
      intro inner hinner
      rcases hget : inner.get? segment with _ | child
      · exact copy_of_get?_none hget rest inner
      · have hpaste := ih hinner
        rw [fieldOf_of_get? hget] at hpaste
        rw [copy_of_get? hget, fieldOf_of_get? hget, hpaste, Fields.insert_of_get? hget, ite_self]
    cases x with
    | object inner =>
      simp only [itemsAmong_cons_object] at hrest
      exact congrArg object (hcopy inner hrest)
    | array items =>
      rw [itemsAmong_array] at hhere
      simp only [itemsAmong_cons_array] at hrest
      -- With nothing but objects among the items none is dropped, and each is pasted into its own place.
      have hobjects := map_objectsOf hhere
      have hplaces : placesFor (objectsOf items) (.array items) = (objectsOf items).map object := by
        rw [placesFor, hobjects, ← List.length_map object, hobjects, if_pos rfl]
      have hsame : (objectsOf items).map (fun inner => object (copy (segment :: rest) inner inner)) =
          (objectsOf items).map object :=
        List.map_congr_left fun inner hinner =>
          congrArg object (hcopy inner fun r hr => hrest r hr _ (object_mem_of_mem_objectsOf hinner))
      rw [paste_array hplaces, hsame, hobjects]
    | _ => rfl

/-! ### What an expression sees in a copy -/

theorem resolve_objects (f : Document → Document) (objects : List Document) :
    resolve (segment :: rest) (.array (objects.map fun inner => .object (f inner))) =
      .array (found (fun inner => resolve (segment :: rest) (.object (f inner))) objects) := by
  rw [resolve_array, found_map]
  rfl

theorem resolve_copied_object (segment : String) (rest : Path) (source : Document) :
    resolve (segment :: rest) (.object (copy (segment :: rest) source [])) =
      rest.resolve (rest.copied (fieldOf segment (.object source))) := by
  rw [resolve_of_not_array rfl, fieldOf_copied]

theorem resolve_copied_eq_missing : path.resolve (path.copied x) = .missing ↔ path.resolve x = .missing := by
  induction path generalizing x with
  | nil => rfl
  | cons segment rest ih =>
    cases x with
    | object source =>
      show resolve (segment :: rest) (.object (copy (segment :: rest) source [])) = _ ↔ _
      rw [resolve_copied_object, resolve_of_not_array rfl]
      exact ih
    | array items =>
      rw [copied_array]
      exact iff_of_false ne_missing_resolve_array ne_missing_resolve_array
    | _ => rfl

/-- What an expression sees in the copy of an item. Only objects are copied. -/
def seenInCopy (path : Path) (item : Value) : Value :=
  item.toObject?.elim .missing fun inner => path.resolve (.object (path.copy inner []))

theorem resolve_copied_array : resolve (segment :: rest) (copied (segment :: rest) (.array items)) =
    .array (found (seenInCopy (segment :: rest)) items) := by
  rw [copied_array, resolve_objects, found_filterMap]
  rfl

theorem resolve_copied_of_not_array (h : x.isArray = false) :
    resolve (segment :: rest) (copied (segment :: rest) x) = seenInCopy (segment :: rest) x := by
  cases x with
  | array => exact Bool.noConfusion h
  | _ => rfl

theorem seenInCopy_missing (h : resolve (segment :: rest) x = .missing) :
    seenInCopy (segment :: rest) x = .missing := by
  rw [← resolve_copied_of_not_array (not_array_of_resolve h)]
  exact resolve_copied_eq_missing.mpr h

/-- An expression sees in a copy what it sees in the source iff no array is among the items of an array on the way. -/
theorem resolve_copied_eq_iff : path.resolve (path.copied x) = path.resolve x ↔
    ∀ r, Before r path → ItemsAmong (·.isArray = false) r x := by
  induction path generalizing x with
  | nil => exact iff_of_true rfl fun r hr => absurd hr not_before_nil
  | cons segment rest ih =>
    -- Of an item that is an array an expression sees a list in the source, but nothing in the copy.
    have hitem : ∀ item, seenInCopy (segment :: rest) item = resolve (segment :: rest) item ↔
        item.isArray = false ∧ ∀ r, Before r rest → ItemsAmong (·.isArray = false) r (fieldOf segment item) := by
      intro item
      cases item with
      | object source =>
        refine Iff.trans ?_ (and_iff_right rfl).symm
        rw [← ih, resolve_of_not_array rfl, ← resolve_copied_object]
        rfl
      | array => exact iff_of_false ne_missing_resolve_array.symm fun h => Bool.noConfusion h.1
      | _ => exact iff_of_true rfl ⟨rfl, fun r _ => itemsAmong_missing r⟩
    rw [forall_before_cons]
    cases hx : x.isArray with
    | false =>
      simp only [itemsAmong_cons_of_not_array hx]
      rw [resolve_copied_of_not_array hx, hitem, hx, and_iff_right rfl, and_iff_right (itemsAmong_of_not_array hx)]
    | true =>
      obtain ⟨items, rfl⟩ := exists_array hx
      simp only [itemsAmong_array, itemsAmong_cons_array]
      rw [resolve_copied_array, resolve_array, array.injEq, found_eq_iff fun item _ => seenInCopy_missing]
      simp only [hitem]
      exact ⟨fun h => ⟨fun item hi => (h item hi).1, fun r hr item hi => (h item hi).2 r hr⟩,
        fun h item hi => ⟨h.1 item hi, fun r hr => h.2 r hr item hi⟩⟩

/-! ### A copy after another one -/

theorem fieldOf_copy_copy (segment : String) (p q : Path) (source : Document) :
    fieldOf segment (.object (copy (segment :: q) source (copy (segment :: p) source []))) =
      q.paste (fieldOf segment (.object source)) (p.copied (fieldOf segment (.object source))) := by
  rw [fieldOf_copy, fieldOf_copied]
  intro h
  rw [copy_of_get?_none h]
  rfl

theorem paste_copied_array : paste (other :: q) (.array items) (copied (segment :: p) (.array items)) =
    .array ((objectsOf items).map fun inner => .object (copy (other :: q) inner (copy (segment :: p) inner []))) := by
  rw [copied_array]
  refine paste_array ?_
  rw [placesFor, List.length_map, if_pos rfl]

theorem resolve_copy_copy_of_ne (h : other ≠ segment) (p q : Path) (source : Document) :
    resolve (segment :: p) (.object (copy (other :: q) source (copy (segment :: p) source []))) =
      resolve (segment :: p) (.object (copy (segment :: p) source [])) := by
  rw [resolve_of_not_array rfl, fieldOf_copy_of_ne h, resolve_of_not_array rfl]

theorem resolve_copy_copy (segment : String) (p q : Path) (source : Document) :
    resolve (segment :: p) (.object (copy (segment :: q) source (copy (segment :: p) source []))) =
      p.resolve (q.paste (fieldOf segment (.object source)) (p.copied (fieldOf segment (.object source)))) := by
  rw [resolve_of_not_array rfl, fieldOf_copy_copy]

/-- Where an expression sees nothing in a copy, it sees nothing after another copy. -/
theorem resolve_paste_of_missing (h : p.resolve (p.copied x) = .missing) :
    p.resolve (q.paste x (p.copied x)) = .missing := by
  induction p generalizing q x with
  | nil =>
    have hx : x = .missing := h
    rw [hx]
    exact paste_missing q
  | cons segment p ih =>
    cases q with
    | nil => exact resolve_copied_eq_missing.mp h
    | cons other q =>
      cases x with
      | object source =>
        show resolve (segment :: p) (.object (copy (other :: q) source (copy (segment :: p) source []))) = .missing
        have hcopied : resolve (segment :: p) (.object (copy (segment :: p) source [])) = .missing := h
        -- At another field the second copy leaves everything that is seen.
        by_cases hsegment : other = segment
        · rw [resolve_copied_object] at hcopied
          rw [hsegment, resolve_copy_copy]
          exact ih hcopied
        · rw [resolve_copy_copy_of_ne hsegment]
          exact hcopied
      | array items =>
        rw [copied_array] at h
        exact absurd h ne_missing_resolve_array
      | _ => rfl

theorem itemsAmong_objectsOf {P : Value → Prop} : ItemsAmong P (segment :: rest) (.array items) ↔
    ∀ inner ∈ objectsOf items, ItemsAmong P rest (fieldOf segment (.object inner)) := by
  rw [itemsAmong_cons_array]
  constructor
  · exact fun h inner hinner => h _ (object_mem_of_mem_objectsOf hinner)
  · intro h item hitem
    cases item with
    | object inner => exact h inner (List.mem_filterMap.mpr ⟨_, hitem, rfl⟩)
    | _ => exact itemsAmong_missing rest

/-- A copy after another one leaves what an expression sees at the path of the first one, if only objects are among the
    items of the arrays that the second path comes to behind the end of the first one, and iff no array is among the
    items of the arrays that the first path comes to behind the end of the second one. -/
theorem resolve_paste_eq_iff (hobjects : ∀ r, p <+: r → Before r q → ItemsAmong (·.isObject) r x) :
    p.resolve (q.paste x (p.copied x)) = p.resolve (p.copied x) ↔
      ∀ r, q <+: r → Before r p → ItemsAmong (·.isArray = false) r x := by
  induction p generalizing q x with
  | nil =>
    refine iff_of_true ?_ fun r _ hr => absurd hr not_before_nil
    exact paste_self fun r => hobjects r List.nil_prefix
  | cons segment p ih =>
    cases q with
    | nil =>
      simp only [List.nil_prefix, true_imp_iff]
      exact eq_comm.trans resolve_copied_eq_iff
    | cons other q =>
      rw [forall_between_cons] at hobjects ⊢
      -- In an object the copies meet only if both paths begin with the same segment; then the rests are compared.
      have hcopies : ∀ source : Document,
          (segment = other → ∀ r, p <+: r → Before r q → ItemsAmong (·.isObject) r (fieldOf other (.object source))) →
          (resolve (segment :: p) (.object (copy (other :: q) source (copy (segment :: p) source []))) =
              resolve (segment :: p) (.object (copy (segment :: p) source [])) ↔
            (other = segment → ∀ r, q <+: r → Before r p →
              ItemsAmong (·.isArray = false) r (fieldOf segment (.object source)))) := by
        intro source hsource
        by_cases hsegment : other = segment
        · subst hsegment
          rw [resolve_copy_copy, resolve_copied_object, forall_prop_of_true rfl]
          exact ih (hsource rfl)
        · exact iff_of_true (resolve_copy_copy_of_ne hsegment p q source) fun h => absurd h hsegment
      cases x with
      | object source =>
        simp only [itemsAmong_cons_object] at hobjects ⊢
        exact hcopies source hobjects
      | array items =>
        -- Both copies have one object for each object of the array, so they agree iff they agree object by object.
        simp only [itemsAmong_objectsOf] at hobjects ⊢
        rw [paste_copied_array, copied_array, resolve_objects, resolve_objects, array.injEq, found_eq_iff]
        · have hinner (inner : Document) (hmem : inner ∈ objectsOf items) :=
            hcopies inner fun h r hp hq => hobjects h r hp hq inner hmem
          constructor
          · exact fun h hsegment r hq hp inner hmem => (hinner inner hmem).mp (h inner hmem) hsegment r hq hp
          · exact fun h inner hmem => (hinner inner hmem).mpr fun hsegment r hq hp => h hsegment r hq hp inner hmem
        · -- What the first copy lacks stays missing, so the objects that are seen are the same in both.
          exact fun inner _ => resolve_paste_of_missing (p := segment :: p) (q := other :: q) (x := .object inner)
      | _ => exact iff_of_true rfl fun _ r _ _ => (itemsAmong_cons_of_not_array rfl).mpr (itemsAmong_missing r)

/-- A copy along a longer path leaves no trace in a copy along its beginning. -/
theorem paste_copied_append (q more : Path) (x : Value) : q.paste x (copied (q ++ more) x) = q.copied x := by
  induction q generalizing x with
  | nil => rfl
  | cons segment q ih =>
    -- In an object both copies write one field, and the last write counts.
    have hcopy : ∀ source : Document,
        copy (segment :: q) source (copy (segment :: (q ++ more)) source []) = copy (segment :: q) source [] := by
      intro source
      rcases hget : source.get? segment with _ | child
      · rw [copy_of_get?_none hget (q ++ more)]
      · rw [copy_of_get? hget (q ++ more)]
        split
        · next hcopied =>
          -- Where the longer path has something to copy, the shorter one has it too.
          have hshorter : (q.isEmpty || child.isArray || child.isObject) = true := by
            cases q with
            | nil => rfl
            | cons => exact hcopied
          rw [copy_of_get? hget, copy_of_get? hget, if_pos hshorter, if_pos hshorter, Fields.insert_insert,
            fieldOf_insert, if_pos rfl]
          exact congrArg _ (ih child)
        · rfl
    cases x with
    | object source => exact congrArg object (hcopy source)
    | array items =>
      rw [List.cons_append, paste_copied_array, copied_array]
      exact congrArg array (List.map_congr_left fun inner _ => congrArg object (hcopy inner))
    | _ => rfl

theorem copy_copy_of_prefix (h : q <+: p) (hq : q ≠ []) (source : Document) :
    q.copy source (p.copy source []) = q.copy source [] := by
  obtain ⟨more, rfl⟩ := h
  obtain ⟨segment, q, rfl⟩ := List.exists_cons_of_ne_nil hq
  exact object.inj (paste_copied_append (segment :: q) more (.object source))

/-! ### Two paths in one copy -/

/-- After a second copy an expression sees at the first path what it saw there before iff no array is among the items
    of the arrays that the first path comes to from the end of the second one on. If the second path is a beginning of
    the first one, nothing is left of the first copy. If it is the longer one, only objects are asked for among the
    items of the arrays that it comes to from the end of the first one on. -/
theorem copy_keeps_copied (hp : p ≠ []) (hq : q ≠ [])
    (hobjects : ∀ r, p <+: r → Before r q → ItemsAmong (·.isObject) r (.object source)) :
    (p.resolve (.object (q.copy source (p.copy source []))) = p.resolve (.object (p.copy source [])) ↔
      ∀ r, q <+: r → Before r p → ItemsAmong (·.isArray = false) r (.object source)) ∧
    (q <+: p → q.copy source (p.copy source []) = q.copy source []) := by
  refine ⟨?_, fun h => copy_copy_of_prefix h hq source⟩
  obtain ⟨segment, p, rfl⟩ := List.exists_cons_of_ne_nil hp
  obtain ⟨other, q, rfl⟩ := List.exists_cons_of_ne_nil hq
  exact resolve_paste_eq_iff hobjects

/-- The goods of an order keep their prices when their names are copied after them. -/
theorem copy_keeps_copied_goods :
    let order : Document := [("goods", .array [.object [("name", .string "pen"), ("price", .int 3)]]), ("note", .null)]
    let goods := ofString "goods"
    let name := ofString "goods.name"
    ((∀ r, goods <+: r → Before r name → ItemsAmong (·.isObject) r (.object order)) ∧
      ∀ r, name <+: r → Before r goods → ItemsAmong (·.isArray = false) r (.object order)) ∧
      goods.resolve (.object (name.copy order (goods.copy order []))) =
        goods.resolve (.object (goods.copy order [])) := by
  intro order goods name
  have hobjects : ∀ r, goods <+: r → Before r name → ItemsAmong (·.isObject) r (.object order) := by
    show ∀ r, ["goods"] <+: r → Before r ["goods", "name"] → _
    simp only [forall_between_cons, List.nil_prefix, forall_const, forall_before_cons]
    refine ⟨(itemsAmong_cons_object _).mpr ?_, fun r hr => absurd hr not_before_nil⟩
    exact itemsAmong_array.mpr (List.forall_mem_singleton.mpr rfl)
  have hflat : ∀ r, name <+: r → Before r goods → ItemsAmong (·.isArray = false) r (.object order) := by
    show ∀ r, ["goods", "name"] <+: r → Before r ["goods"] → _
    simp only [forall_between_cons]
    exact fun _ r _ hr => absurd hr not_before_nil
  exact ⟨⟨hobjects, hflat⟩, (copy_keeps_copied (by decide) (by decide) hobjects).1.mpr hflat⟩

/-- An array in an array comes with the array, but not with a path through it. What is no object in an array is lost
    when a path through the array is copied after it. -/
theorem not_copy_keeps_copied_mixed :
    let nested : Document := [("a", .array [.array [.object [("b", .int 5)]], .object [("b", .int 1)]])]
    let mixed : Document := [("a", .array [.int 1, .object [("b", .int 1)]])]
    let p := ofString "a"
    let q := ofString "a.b"
    q.resolve (.object (p.copy nested (q.copy nested []))) ≠ q.resolve (.object (q.copy nested [])) ∧
      p.resolve (.object (q.copy mixed (p.copy mixed []))) ≠ p.resolve (.object (p.copy mixed [])) := by
  intro nested mixed p q
  have hnested : q.resolve (.object (q.copy nested [])) = .array [.int 1] := rfl
  have hnestedAfter : q.resolve (.object (p.copy nested (q.copy nested []))) = .array [.array [.int 5], .int 1] := rfl
  have hmixed : p.resolve (.object (p.copy mixed [])) = .array [.int 1, .object [("b", .int 1)]] := rfl
  have hmixedAfter : p.resolve (.object (q.copy mixed (p.copy mixed []))) = .array [.object [("b", .int 1)]] := rfl
  rw [hnested, hnestedAfter, hmixed, hmixedAfter]
  simp

end Path

end DocQuery
