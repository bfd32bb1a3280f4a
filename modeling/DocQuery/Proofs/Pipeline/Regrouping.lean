import DocQuery.Proofs.Expr.Evaluation
import DocQuery.Proofs.Path
import DocQuery.Proofs.Pipeline.Single
import DocQuery.Proofs.Stage.Group
import DocQuery.Proofs.Stage.Unwind

/-! Unwinding a field and collecting it again. The items of a document come out next to each other, all under its `_id`
    value. So a group by that value takes them up one by one, before it meets the items of the next document. -/

namespace DocQuery

open Checked Value

variable {name : String} {doc : Document} {docs : List Document} {d id item : Value} {run items : List Value}
  {g : Grouping} {group : Group} {groups : List Group} {taken : Array Value}
  {search : Option TextSearch}

namespace Grouping

/-! ### Runs of documents -/

/-- A document whose key has not been met starts a group. -/
theorem add_first (hid : g.idOf d = .ok id) (hnew : id.key ∉ groups.map Group.key) :
    g.add none groups d =
      (g.feed d (g.fields.map (·.start))).map fun accumulators => groups ++ [⟨id, id.key, accumulators⟩] := by
  obtain ⟨v, hv, rfl⟩ := idOf_eq_ok.mp hid
  have hfind := find?_key_eq_none.mpr hnew
  simp only [add, hv, bind, Except.bind, hfind]
  cases g.feed d (g.fields.map (·.start)) <;> rfl

/-- A document with the key of the last group goes into that. -/
theorem add_last (hid : g.idOf d = .ok id) (hkey : id.key = group.key) (hnew : group.key ∉ groups.map Group.key) :
    g.add none (groups ++ [group]) d =
      (g.feed d group.accumulators).map fun accumulators => groups ++ [{ group with accumulators }] := by
  obtain ⟨v, hv, rfl⟩ := idOf_eq_ok.mp hid
  have hfind : (groups ++ [group]).find? (·.key = v.orNull.key) = some group := by
    rw [List.find?_append, find?_key_eq_none.mpr (hkey ▸ hnew)]
    simp [hkey]
  have hothers : ∀ fed, groups.map (Group.put v.orNull.key fed) = groups := fun fed => by
    refine (List.map_congr_left fun other hother => ?_).trans (List.map_id groups)
    exact Group.put_of_ne fun hsame => hnew (hkey ▸ hsame ▸ List.mem_map_of_mem hother)
  have hlast : ∀ fed, group.put v.orNull.key fed = { group with accumulators := fed } := fun fed => if_pos hkey.symm
  simp only [add, hv, bind, Except.bind, hfind]
  cases g.feed d group.accumulators with
  | error => rfl
  | ok fed =>
    show Except.ok ((groups ++ [group]).map (Group.put v.orNull.key fed)) = _
    rw [List.map_append, hothers, List.map_singleton, hlast]
    rfl

theorem foldlM_add_last (hrun : ∀ d ∈ run, ∃ id, g.idOf d = .ok id ∧ id.key = group.key)
    (hnew : group.key ∉ groups.map Group.key) :
    run.foldlM (g.add none) (groups ++ [group]) =
      (run.foldlM (fun accumulators d => g.feed d accumulators) group.accumulators).map fun accumulators =>
        groups ++ [{ group with accumulators }] := by
  induction run generalizing group with
  | nil => rfl
  | cons d rest ih =>
    obtain ⟨⟨id, hid, hkey⟩, hrest⟩ := List.forall_mem_cons.mp hrun
    rw [List.foldlM_cons, List.foldlM_cons, add_last hid hkey hnew]
    cases g.feed d group.accumulators with
    | error => rfl
    | ok fed => exact ih hrest hnew

/-- Documents of one key that come one after the other make one group, if they are the first ones of that key. -/
theorem foldlM_add_run (hsome : run ≠ []) (hrun : ∀ d ∈ run, g.idOf d = .ok id) (hnew : id.key ∉ groups.map Group.key) :
    run.foldlM (g.add none) groups =
      (run.foldlM (fun accumulators d => g.feed d accumulators) (g.fields.map (·.start))).map fun accumulators =>
        groups ++ [⟨id, id.key, accumulators⟩] := by
  obtain ⟨d, rest, rfl⟩ := List.exists_cons_of_ne_nil hsome
  obtain ⟨hd, hrest⟩ := List.forall_mem_cons.mp hrun
  rw [List.foldlM_cons, List.foldlM_cons, add_first hd hnew]
  cases g.feed d (g.fields.map (·.start)) with
  | error => rfl
  | ok fed => exact foldlM_add_last (fun d hd => ⟨id, hrest d hd, rfl⟩) hnew

end Grouping

/-! ### Collecting -/

/-- The fields of these names, as far as they are there. -/
def Fields.pick (names : List String) (doc : Document) : Document :=
  names.filterMap fun name => (doc.get? name).map (name, ·)

/-- The document has an `_id` value, and items in the field. -/
structure Carries (name : String) (doc : Document) : Prop where
  whole : (object doc).Whole
  id : ∃ id, doc.get? "_id" = some id
  items : ∃ items, doc.get? name = some (.array items) ∧ items ≠ []

/-- The key of the `_id` value. -/
def idKey (doc : Document) : Option String := (doc.get? "_id").map Value.key

/-- The documents that come out of an unwinding of a field with these items. -/
def unwound (name : String) (items : List Value) (doc : Document) : List Value :=
  items.map fun item => object (doc.insert name item)

theorem evaluateOn_field (hname : isFieldName name) (hdots : '.' ∉ name.toList) {v : Value}
    (hget : doc.get? name = some v) : Expr.evaluateOn (.string ("$" ++ name)) (object doc) = .ok v := by
  have hpath := Path.ofString_of_not_mem hdots
  rw [isFieldName, hpath] at hname
  simp only [Bool.and_eq_true, Bool.not_eq_true', List.contains_eq_mem, List.mem_singleton,
    decide_eq_false_iff_not] at hname
  rw [Expr.evaluateOn, Expr.evaluate_path (Ne.symm hname.2) hname.1, hpath, Path.resolve, Path.descend, hget]
  rfl

namespace Grouping

/-- Collects the values of a field by `_id`. -/
def collecting (name : String) : Grouping :=
  { id := .string "$_id", fields := [⟨name, .push #[], .string ("$" ++ name)⟩] }

theorem ofValue_collecting (hname : isFieldName name) (hdots : '.' ∉ name.toList) (hid : name ≠ "_id") :
    ofValue (.object [("_id", .string "$_id"), (name, .object [("$push", .string ("$" ++ name))])]) =
      .ok (collecting name) := by
  have hfield : GroupField.ofField (name, .object [("$push", .string ("$" ++ name))]) =
      .ok ⟨name, .push #[], .string ("$" ++ name)⟩ := by
    rw [GroupField.ofField, checkFieldName, if_pos hname, Path.ofString_of_not_mem hdots]
    rfl
  have hfields : [("_id", string "$_id"), (name, object [("$push", string ("$" ++ name))])].filter (·.1 ≠ "_id") =
      [(name, object [("$push", string ("$" ++ name))])] := by simp [hid]
  rw [ofValue, hfields, List.mapM_cons, hfield]
  rfl

theorem idOf_unwound (hid : name ≠ "_id") (h : (object doc).Whole) (hget : doc.get? "_id" = some id) :
    ∀ d ∈ unwound name items doc, (collecting name).idOf d = .ok id := by
  intro d hd
  obtain ⟨item, -, rfl⟩ := List.mem_map.mp hd
  have hinsert : (doc.insert name item).get? "_id" = some id := by rw [Fields.get?_insert, if_neg hid, hget]
  have hfield : isFieldName "_id" := rfl
  exact idOf_eq_ok.mpr ⟨id, evaluateOn_field hfield (by decide) hinsert, (h.get? hget).orNull_eq⟩

theorem feed_unwound (doc : Document) (taken : Array Value) (hname : isFieldName name) (hdots : '.' ∉ name.toList)
    (hitems : ∀ item ∈ items, item.Whole) :
    (unwound name items doc).foldlM (fun accumulators d => (collecting name).feed d accumulators) [.push taken] =
      .ok [.push (taken ++ items.toArray)] := by
  induction items generalizing taken with
  | nil => simp [unwound]; rfl
  | cons item rest ih =>
    obtain ⟨hitem, hrest⟩ := List.forall_mem_cons.mp hitems
    have heval : Expr.evaluateOn (.string ("$" ++ name)) (object (doc.insert name item)) = .ok item :=
      evaluateOn_field hname hdots (by rw [Fields.get?_insert, if_pos rfl])
    have hfeed : (collecting name).feed (object (doc.insert name item)) [.push taken] =
        .ok [.push (taken.push item)] := by
      rw [feed]
      simp only [collecting, List.zip_cons_cons, List.zip_nil_left, List.mapM_cons, List.mapM_nil, heval]
      show Except.ok [Accumulator.push (if item.isMissing then taken else taken.push item)] = _
      rw [hitem.isMissing_eq]
      rfl
    show List.foldlM _ _ (object (doc.insert name item) :: unwound name rest doc) = _
    rw [List.foldlM_cons, hfeed]
    show List.foldlM _ [Accumulator.push (taken.push item)] (unwound name rest doc) = _
    rw [ih _ hrest]
    simp

theorem document_collecting (hid : name ≠ "_id") (key : String) (items : Array Value) :
    (collecting name).document ⟨id, key, [.push items]⟩ = object [("_id", id), (name, array items.toList)] := by
  have hnodup : (Fields.names [("_id", id), (name, array items.toList)]).Nodup := by
    simp [Fields.names, Ne.symm hid]
  exact congrArg object (Fields.ofList_of_nodup hnodup)

/-- The documents that come out of one document make one group, and the group makes one document. -/
theorem exists_group_unwound (hname : isFieldName name) (hdots : '.' ∉ name.toList) (hid : name ≠ "_id")
    (hdoc : Carries name doc) (hnew : ∀ group ∈ groups, idKey doc ≠ some group.key) :
    ∃ items group, doc.get? name = some (array items) ∧ items ≠ [] ∧ idKey doc = some group.key ∧
      (unwound name items doc).foldlM ((collecting name).add none) groups = .ok (groups ++ [group]) ∧
      (collecting name).document group = object (Fields.pick ["_id", name] doc) := by
  obtain ⟨id, hget⟩ := hdoc.id
  obtain ⟨items, hitems, hsome⟩ := hdoc.items
  have hkey : idKey doc = some id.key := congrArg _ hget
  have hnewKey : id.key ∉ groups.map Group.key := fun hmem => by
    obtain ⟨group, hgroup, hsame⟩ := List.mem_map.mp hmem
    exact hnew group hgroup (hkey.trans (congrArg some hsame.symm))
  have hpick : Fields.pick ["_id", name] doc = [("_id", id), (name, array items)] := by
    simp [Fields.pick, hget, hitems]
  refine ⟨items, ⟨id, id.key, [.push items.toArray]⟩, hitems, hsome, hkey, ?_, ?_⟩
  · -- All the rows have one key, which is new, so they are a run that makes one group.
    have hfed := feed_unwound doc #[] hname hdots (hdoc.whole.get? hitems).items
    have hrows : unwound name items doc ≠ [] := mt List.map_eq_nil_iff.mp hsome
    rw [foldlM_add_run hrows (idOf_unwound hid hdoc.whole hget) hnewKey]
    show Except.map _ (List.foldlM _ [Accumulator.push #[]] _) = _
    rw [hfed, Array.empty_append]
    rfl
  · rw [document_collecting hid, hpick]

/-- The pass over all documents that come out of an unwinding. -/
theorem exists_groups_unwound (hname : isFieldName name) (hdots : '.' ∉ name.toList) (hid : name ≠ "_id")
    (hdocs : ∀ doc ∈ docs, Carries name doc)
    (hkeys : (groups.map (fun group => some group.key) ++ docs.map idKey).Nodup) :
    ∃ found, (docs.flatMap ({ path := [name] } : Unwinding).applyTo).foldlM ((collecting name).add none) groups =
        .ok (groups ++ found) ∧
      found.map (collecting name).document = docs.map fun doc => object (Fields.pick ["_id", name] doc) := by
  induction docs generalizing groups with
  | nil => exact ⟨[], by rw [List.append_nil]; rfl, rfl⟩
  | cons doc rest ih =>
    obtain ⟨hdoc, hrest⟩ := List.forall_mem_cons.mp hdocs
    have hnew : ∀ group ∈ groups, idKey doc ≠ some group.key := fun group hgroup hsame =>
      List.disjoint_of_nodup_append hkeys (List.mem_map_of_mem hgroup) (by simp [hsame])
    obtain ⟨items, group, hitems, hsome, hkey, hgroups, hdocument⟩ := exists_group_unwound hname hdots hid hdoc hnew
    -- The key of the document moves from the ones to come to the groups that are there.
    have hkeys' : ((groups ++ [group]).map (fun group => some group.key) ++ rest.map idKey).Nodup := by
      rw [List.map_append, List.append_assoc, List.map_singleton, ← hkey]
      exact hkeys
    obtain ⟨found, hfound, hdocuments⟩ := ih hrest hkeys'
    have hunwound : ({ path := [name] } : Unwinding).applyTo doc = unwound name items doc := by
      have hpath : Path.get? [name] (object doc) = some (array items) := by
        rw [Path.get?, Path.step?, hitems]
        rfl
      exact Unwinding.applyTo_of_items rfl hpath hsome
    refine ⟨group :: found, ?_, ?_⟩
    · rw [List.flatMap_cons, List.foldlM_append, hunwound, hgroups]
      show List.foldlM _ (groups ++ [group]) _ = _
      rw [hfound, List.append_assoc]
      rfl
    · rw [List.map_cons, hdocument, hdocuments, List.map_cons]

end Grouping

namespace Pipeline

/-- Unwinds a field and collects it again by `_id`. -/
def regrouping (name : String) : List Value :=
  [.object [("$unwind", .string ("$" ++ name))],
    .object [("$group", .object [("_id", .string "$_id"), (name, .object [("$push", .string ("$" ++ name))])])]]

theorem ofValue_unwind (hname : isFieldName name) (hdots : '.' ∉ name.toList) :
    Unwinding.ofValue (.string ("$" ++ name)) = .ok { path := [name] } := by
  have htext : ("$" ++ name).toList = '$' :: name.toList := by simp
  have hpath : Unwinding.pathOf ("$" ++ name) = .ok [name] := by
    unfold Unwinding.pathOf
    rw [htext]
    show checkFieldName "$unwind" (String.ofList name.toList) = _
    rw [String.ofList_toList, checkFieldName, if_pos hname, Path.ofString_of_not_mem hdots]
  rw [Unwinding.ofValue, hpath]
  rfl

/-- To group by `_id` undoes an unwinding. Documents with items in a field and with `_id` values of different keys come
    back in their order, with these two fields as they were. -/
theorem aggregate_regrouping (hname : isFieldName name) (hdots : '.' ∉ name.toList) (hid : name ≠ "_id")
    (hdocs : ∀ doc ∈ docs, Carries name doc) (hkeys : (docs.map idKey).Nodup) :
    aggregate (.array (regrouping name)) { search } (docs.map .object) =
      .ok (docs.map fun doc => .object (Fields.pick ["_id", name] doc)) := by
  have hnone : (([] : List Group).map (fun group => some group.key) ++ docs.map idKey).Nodup := hkeys
  obtain ⟨found, hfound, hdocuments⟩ := Grouping.exists_groups_unwound hname hdots hid hdocs hnone
  have hunwind : Stage.ofSpecification "$unwind" (.string ("$" ++ name)) =
      (Unwinding.ofValue (.string ("$" ++ name))).map .unwind := rfl
  refine (aggregate_cons_eq_ok rfl).mpr ⟨_, (aggregate_single rfl hunwind).mpr
    ⟨_, ofValue_unwind hname hdots, Stage.run_unwind ..⟩, ?_⟩
  have hgroup : ∀ v, Stage.ofSpecification "$group" v = (Grouping.ofValue v).map .group := fun _ => rfl
  refine (aggregate_single rfl (hgroup _)).mpr ⟨_, Grouping.ofValue_collecting hname hdots hid, ?_⟩
  show (do return (← List.foldlM _ [] _).map _ : Checked (List Value)) = _
  rw [hfound, ← hdocuments]
  rfl

/-- Two orders. The `_id` value of the second one is null, and so is a line of the first. -/
theorem aggregate_regrouping_orders :
    let cups := Value.array [.string "cup", .null, .array [.int 1, .string "cup"]]
    let bowls := Value.array [.object [("bowl", .int 1)]]
    let first : Document := [("_id", .int 2), ("open", .bool true), ("lines", cups)]
    let second : Document := [("lines", bowls), ("_id", .null)]
    ((∀ doc ∈ [first, second], Carries "lines" doc) ∧ ([first, second].map idKey).Nodup) ∧
      aggregate (.array (regrouping "lines")) {} [.object first, .object second] =
        .ok [.object [("_id", .int 2), ("lines", cups)], .object [("_id", .null), ("lines", bowls)]] := by
  intro cups bowls first second
  have hfirst : (Value.object first).Whole := (wellFormed_ofJson (.object [("_id", .integer 2), ("open", .bool true),
    ("lines", .array [.string "cup", .null, .array [.integer 1, .string "cup"]])])).whole
  have hsecond : (Value.object second).Whole :=
    (wellFormed_ofJson (.object [("lines", .array [.object [("bowl", .integer 1)]]), ("_id", .null)])).whole
  have hdocs : ∀ doc ∈ [first, second], Carries "lines" doc := by
    refine List.forall_mem_cons.mpr ⟨?_, List.forall_mem_singleton.mpr ?_⟩
    · exact ⟨hfirst, ⟨_, rfl⟩, _, rfl, List.cons_ne_nil _ _⟩
    · exact ⟨hsecond, ⟨_, rfl⟩, _, rfl, List.cons_ne_nil _ _⟩
  have hkeys : ([first, second].map idKey).Nodup := by decide
  have hpick : [first, second].map (fun doc => Value.object (Fields.pick ["_id", "lines"] doc)) =
      [.object [("_id", .int 2), ("lines", cups)], .object [("_id", .null), ("lines", bowls)]] := rfl
  have hname : isFieldName "lines" := rfl
  have hregrouped : aggregate (.array (regrouping "lines")) {} ([first, second].map .object) = _ :=
    aggregate_regrouping hname (by decide) (by decide) hdocs hkeys
  rw [hpick] at hregrouped
  exact ⟨⟨hdocs, hkeys⟩, hregrouped⟩

end Pipeline

end DocQuery
