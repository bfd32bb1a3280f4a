import DocQuery.Proofs.Fields.Adjust
import DocQuery.Proofs.Path.Set
import DocQuery.Proofs.Value.WellFormed

/-! Removing what a path names. Removals meet neither each other nor a copy of what a path beside names: where names
    are distinct, the order and the number of the removals do not matter. A removal after a write leaves the same,
    whether or not the removal has been made before the write. -/

namespace DocQuery

open Value

variable {segment other : String} {rest path p q : Path} {paths : List Path} {v x : Value} {doc source : Document}
  {f g : Document → Document}

namespace Value

/-- Changes an object. -/
def inObject (f : Document → Document) : Value → Value
  | object fields => object (f fields)
  | v => v

/-- Changes an object, or each of the objects among the items of an array. -/
def within (f : Document → Document) : Value → Value
  | array items => array (items.map (inObject f))
  | v => v.inObject f

theorem within_of_not_array (h : v.isArray = false) : v.within f = v.inObject f := by
  cases v with
  | array => exact Bool.noConfusion h
  | _ => rfl

theorem isArray_inObject : (v.inObject f).isArray = v.isArray := by
  cases v <;> rfl

theorem inObject_inObject : (v.inObject f).inObject g = v.inObject fun doc => g (f doc) := by
  cases v <;> rfl

theorem within_within : (v.within f).within g = v.within fun doc => g (f doc) := by
  cases v with
  | array items =>
    refine congrArg array ?_
    rw [List.map_map]
    exact List.map_congr_left fun _ _ => inObject_inObject
  | _ => rfl

/-- No object is lost among the items. -/
theorem objects_inObject (f : Document → Document) (items : List Value) :
    (items.map (inObject f)).filterMap toObject? = (items.filterMap toObject?).map f := by
  rw [List.filterMap_map, List.map_filterMap]
  refine List.filterMap_congr fun item _ => ?_
  cases item <;> rfl

theorem inObject_congr (hv : v.Distinct) (h : ∀ doc, (object doc).Distinct → f doc = g doc) :
    v.inObject f = v.inObject g := by
  cases v with
  | object fields => exact congrArg object (h fields hv)
  | _ => rfl

theorem within_congr (hv : v.Distinct) (h : ∀ doc, (object doc).Distinct → f doc = g doc) :
    v.within f = v.within g := by
  cases v with
  | array items => exact congrArg array (List.map_congr_left fun item hitem => inObject_congr (hv.items item hitem) h)
  | object => exact inObject_congr hv h
  | _ => rfl

end Value

namespace Path

/-- What is left of the value at the first step of a removal. -/
def removeIn : Path → Value → Option Value
  | [], _ => none
  | segment :: rest, v => some (v.within (remove (segment :: rest)))

theorem remove_cons_cons (segment next : String) (rest : Path) (doc : Document) :
    remove (segment :: next :: rest) doc = doc.modify segment (within (remove (next :: rest))) := by
  rw [remove]
  refine congrArg _ (funext fun child => ?_)
  cases child with
  | array items =>
    refine congrArg array (List.map_congr_left fun item _ => ?_)
    cases item <;> rfl
  | _ => rfl

theorem remove_cons (segment : String) (rest : Path) (doc : Document) :
    remove (segment :: rest) doc = doc.adjust segment rest.removeIn := by
  cases rest with
  | nil => exact Fields.erase_eq_adjust doc segment
  | cons next rest => rw [remove_cons_cons, Fields.modify_eq_adjust]; rfl

theorem get?_remove_of_ne (h : other ≠ segment) (rest : Path) (doc : Document) :
    (remove (other :: rest) doc).get? segment = doc.get? segment := by
  rw [remove_cons, Fields.get?_adjust_of_ne h]

theorem remove_insert_of_ne (h : segment ≠ other) (rest : Path) (v : Value) (doc : Document) :
    remove (other :: rest) (doc.insert segment v) = (remove (other :: rest) doc).insert segment v := by
  rw [remove_cons, remove_cons, Fields.adjust_insert_of_ne h]

theorem distinct_remove (path : Path) (h : (object doc).Distinct) : (object (path.remove doc)).Distinct :=
  kept_remove Distinct.kept path h

/-! ### Removing twice -/

theorem removeIn_removeIn (hv : v.Distinct)
    (h : ∀ doc, (object doc).Distinct → p.remove (q.remove doc) = q.remove (p.remove doc)) :
    (q.removeIn v).bind p.removeIn = (p.removeIn v).bind q.removeIn := by
  cases p with
  | nil => cases q <;> rfl
  | cons =>
    cases q with
    | nil => rfl
    | cons =>
      refine congrArg some ?_
      rw [within_within, within_within]
      exact within_congr hv h

theorem remove_comm (p q : Path) (h : (object doc).Distinct) : p.remove (q.remove doc) = q.remove (p.remove doc) := by
  induction p generalizing q doc with
  | nil => rfl
  | cons segment p ih =>
    cases q with
    | nil => rfl
    | cons other q =>
      simp only [remove_cons]
      -- Two removals at one field are made in its value, one after the other; at two fields they do not meet.
      by_cases hsegment : segment = other
      · subst hsegment
        rw [Fields.adjust_adjust h.proper.nodup, Fields.adjust_adjust h.proper.nodup]
        exact Fields.adjust_congr fun field hfield =>
          removeIn_removeIn (h.proper.values field hfield) fun doc hdoc => ih q hdoc
      · exact Fields.adjust_adjust_of_ne (Ne.symm hsegment)

theorem remove_remove (path : Path) (h : (object doc).Distinct) : path.remove (path.remove doc) = path.remove doc := by
  induction path generalizing doc with
  | nil => rfl
  | cons segment rest ih =>
    rw [remove_cons, remove_cons, Fields.adjust_adjust h.proper.nodup]
    refine Fields.adjust_congr fun field hfield => ?_
    cases rest with
    | nil => rfl
    | cons next rest =>
      refine congrArg some ?_
      rw [within_within]
      exact within_congr (h.proper.values field hfield) fun doc hdoc => ih hdoc

/-! ### Removing and writing -/

theorem remove_nil (path : Path) : path.remove [] = [] := by
  rcases path with _ | ⟨segment, _ | ⟨next, rest⟩⟩ <;> rfl

theorem graft_inObject (p q : Path) (v x : Value) :
    p.graft v (x.inObject q.remove) = object (p.set v (q.remove (fieldsOf x))) := by
  cases x with
  | object => rfl
  | _ =>
    show object (p.set v []) = object (p.set v (q.remove []))
    rw [remove_nil]

theorem within_put (h : ∀ doc, (object doc).Distinct → q.remove (p.set v (q.remove doc)) = q.remove (p.set v doc))
    (hx : x.Distinct) : (p.put v (x.within q.remove)).within q.remove = (p.put v x).within q.remove := by
  -- A write makes an object of whatever it meets, so in each item the removal comes to an object.
  have hgraft : ∀ x : Value, x.Distinct →
      (p.graft v (x.inObject q.remove)).inObject q.remove = (p.graft v x).inObject q.remove := fun x hx => by
    rw [graft_inObject]
    exact congrArg object (h _ (kept_fieldsOf Distinct.kept fun _ => hx))
  cases p with
  | nil => rfl
  | cons segment rest =>
    cases x with
    | array items =>
      refine congrArg array ?_
      rw [List.map_map, List.map_map, List.map_map]
      exact List.map_congr_left fun item hitem => hgraft item (hx.items item hitem)
    | _ => exact hgraft _ hx

/-- A removal after a write leaves the same if it has been made before the write, too. -/
theorem remove_set_remove (p q : Path) (v : Value) (h : (object doc).Distinct) :
    q.remove (p.set v (q.remove doc)) = q.remove (p.set v doc) := by
  induction p generalizing q doc with
  | nil => exact remove_remove q h
  | cons segment p ih =>
    cases q with
    | nil => rfl
    | cons other q =>
      rw [set_cons, set_cons]
      by_cases hsegment : segment = other
      · subst hsegment
        cases q with
        | nil =>
          simp only [remove, Fields.erase_insert]
          exact remove_remove [segment] h
        | cons next q =>
          simp only [remove_cons_cons, Fields.modify_insert, Fields.insert_modify, Fields.get?_modify]
          refine congrArg (doc.insert segment) ?_
          cases hchild : doc.get? segment with
          | none => exact within_put (x := .missing) (fun doc hdoc => ih (next :: q) hdoc) (.leaf rfl rfl)
          | some child => exact within_put (fun doc hdoc => ih (next :: q) hdoc) (h.proper.get? hchild)
      · rw [get?_remove_of_ne (Ne.symm hsegment), remove_insert_of_ne hsegment, remove_insert_of_ne hsegment,
          remove_remove _ h]

theorem put_within (hp : p ≠ []) (h : ∀ doc, p.set v (q.remove doc) = q.remove (p.set v doc)) (x : Value) :
    p.put v (x.within q.remove) = (p.put v x).within q.remove := by
  have hgraft : ∀ x, p.graft v (x.inObject q.remove) = (p.graft v x).inObject q.remove := fun x => by
    rw [graft_inObject, h]
    rfl
  obtain ⟨segment, rest, rfl⟩ := List.exists_cons_of_ne_nil hp
  cases hx : x.isArray with
  | true =>
    obtain ⟨items, rfl⟩ := exists_array hx
    refine congrArg array ?_
    rw [List.map_map, List.map_map]
    exact List.map_congr_left fun item _ => hgraft item
  | false =>
    rw [within_of_not_array hx, put_cons hx, put_cons (isArray_inObject.trans hx)]
    exact hgraft x

/-- A write does not meet a removal beside it. -/
theorem set_remove (hp : ¬p <+: q) (hq : ¬q <+: p) (v : Value) (doc : Document) :
    p.set v (q.remove doc) = q.remove (p.set v doc) := by
  induction p generalizing q doc with
  | nil => exact absurd List.nil_prefix hp
  | cons segment p ih =>
    cases q with
    | nil => exact absurd List.nil_prefix hq
    | cons other q =>
      rw [set_cons, set_cons]
      by_cases hsegment : segment = other
      · subst hsegment
        rw [List.prefix_cons_inj] at hp hq
        have hnil : p ≠ [] := fun hnil => hp (hnil ▸ List.nil_prefix)
        obtain ⟨next, rest, rfl⟩ := List.exists_cons_of_ne_nil fun hnil : q = [] => hq (hnil ▸ List.nil_prefix)
        simp only [remove_cons_cons, Fields.modify_insert, Fields.insert_modify, Fields.get?_modify]
        refine congrArg (doc.insert segment) ?_
        rw [← put_within hnil (ih hp hq)]
        cases doc.get? segment <;> rfl
      · rw [get?_remove_of_ne (Ne.symm hsegment), remove_insert_of_ne hsegment]

/-! ### Removing beside a copy -/

/-- A copy does not see what is removed beside it. -/
theorem copy_remove (hp : ¬p <+: q) (hq : ¬q <+: p) (source target : Document) :
    p.copy (q.remove source) target = p.copy source target := by
  induction p generalizing q source target with
  | nil => exact absurd List.nil_prefix hp
  | cons segment p ih =>
    cases q with
    | nil => exact absurd List.nil_prefix hq
    | cons other q =>
      rw [copy, copy]
      by_cases hsegment : segment = other
      · subst hsegment
        rw [List.prefix_cons_inj] at hp hq
        obtain ⟨next, rest, rfl⟩ := List.exists_cons_of_ne_nil fun hnil : p = [] => hp (hnil ▸ List.nil_prefix)
        obtain ⟨next', rest', rfl⟩ := List.exists_cons_of_ne_nil fun hnil : q = [] => hq (hnil ▸ List.nil_prefix)
        rw [remove_cons_cons, Fields.get?_modify]
        cases source.get? segment with
        | none => rfl
        | some child =>
          cases child with
          | object inner =>
            show target.insert segment _ = target.insert segment _
            rw [ih hp hq]
          | array items =>
            -- As many objects as before, so the places for them are the same.
            simp only [Option.map_some, within, objects_inObject, List.length_map, List.map_map, Function.comp_def,
              List.zipWith_map_right, ih hp hq]
          | _ => rfl
      · rw [get?_remove_of_ne (Ne.symm hsegment)]

/-! ### Many paths -/

/-- Removes what each of the paths names. -/
def removeAll (paths : List Path) (doc : Document) : Document := paths.foldl (fun doc path => path.remove doc) doc

theorem remove_removeAll (path : Path) (paths : List Path) (h : (object doc).Distinct) :
    removeAll paths (path.remove doc) = path.remove (removeAll paths doc) := by
  induction paths generalizing doc with
  | nil => rfl
  | cons first rest ih =>
    show removeAll rest (first.remove (path.remove doc)) = path.remove (removeAll rest (first.remove doc))
    rw [remove_comm first path h, ih (distinct_remove first h)]

/-- What is removed anyhow may be removed before. -/
theorem removeAll_remove (hpath : path ∈ paths) (h : (object doc).Distinct) :
    removeAll paths (path.remove doc) = removeAll paths doc := by
  induction paths generalizing doc with
  | nil => exact absurd hpath List.not_mem_nil
  | cons first rest ih =>
    show removeAll rest (first.remove (path.remove doc)) = removeAll rest (first.remove doc)
    rcases List.mem_cons.mp hpath with rfl | hrest
    · rw [remove_remove path h]
    · rw [remove_comm first path h, ih hrest (distinct_remove first h)]

/-- Removals leave a document as it is iff each of them does. -/
theorem removeAll_eq_self_iff (h : (object doc).Distinct) :
    removeAll paths doc = doc ↔ ∀ path ∈ paths, path.remove doc = doc := by
  constructor
  · intro hall path hpath
    -- Removals commute, and one that is made twice counts once.
    calc path.remove doc
        = path.remove (removeAll paths doc) := by rw [hall]
      _ = removeAll paths (path.remove doc) := (remove_removeAll path paths h).symm
      _ = removeAll paths doc := removeAll_remove hpath h
      _ = doc := hall
  · intro hall
    induction paths with
    | nil => rfl
    | cons first rest ih =>
      obtain ⟨hfirst, hrest⟩ := List.forall_mem_cons.mp hall
      show removeAll rest (first.remove doc) = doc
      rw [hfirst, ih hrest]

theorem distinct_set (path : Path) (hv : v.Distinct) (h : (object doc).Distinct) : (object (path.set v doc)).Distinct :=
  kept_set Distinct.kept path hv h

/-- What is removed after a write may be removed before it, too. -/
theorem removeAll_set_removeAll (p : Path) (hv : v.Distinct) {more : List Path} (hmore : more ⊆ paths)
    (h : (object doc).Distinct) : removeAll paths (p.set v (removeAll more doc)) = removeAll paths (p.set v doc) := by
  induction more generalizing doc with
  | nil => rfl
  | cons q rest ih =>
    obtain ⟨hq, hrest⟩ := List.cons_subset.mp hmore
    have hremoved := distinct_remove q h
    calc removeAll paths (p.set v (removeAll rest (q.remove doc)))
        = removeAll paths (p.set v (q.remove doc)) := ih hrest hremoved
      _ = removeAll paths (q.remove (p.set v (q.remove doc))) :=
          (removeAll_remove hq (distinct_set p hv hremoved)).symm
      _ = removeAll paths (q.remove (p.set v doc)) := by rw [remove_set_remove p q v h]
      _ = removeAll paths (p.set v doc) := removeAll_remove hq (distinct_set p hv h)

end Path

end DocQuery
