import Mathlib.Data.List.Forall2
import Mathlib.Data.List.Nodup
import DocQuery.Fields

/-! Fields with distinct names. Writing them one after the other leaves them as they are. All ways to change
    fields keep the names distinct, and keep what holds of all values. Of a name that is written more than once, the
    first place and the last value are kept. -/

namespace DocQuery.Fields

variable {α : Type} {fields pairs : Fields α} {name : String} {value : α}

theorem insert_of_not_mem (h : name ∉ names fields) : insert fields name value = fields ++ [(name, value)] := by
  induction fields with
  | nil => rfl
  | cons field rest ih =>
    obtain ⟨other, old⟩ := field
    have hne : (other == name) = false := by
      simp only [beq_eq_false_iff_ne]
      rintro rfl
      exact h List.mem_cons_self
    rw [insert, if_neg (by simp [hne]), ih fun hmem => h (List.mem_cons_of_mem _ hmem)]
    rfl

theorem foldl_insert_of_nodup (h : (names (fields ++ pairs)).Nodup) :
    pairs.foldl (fun fields (name, value) => fields.insert name value) fields = fields ++ pairs := by
  induction pairs generalizing fields with
  | nil => rw [List.foldl_nil, List.append_nil]
  | cons pair rest ih =>
    obtain ⟨name, value⟩ := pair
    have hassoc : fields ++ (name, value) :: rest = (fields ++ [(name, value)]) ++ rest := by simp
    have hnew : name ∉ names fields := by
      rw [names, List.map_append, List.map_cons, List.nodup_append] at h
      exact fun hmem => h.2.2 _ hmem _ List.mem_cons_self rfl
    rw [List.foldl_cons]
    dsimp only
    rw [insert_of_not_mem hnew, ih (hassoc ▸ h), hassoc]

theorem ofList_of_nodup (h : (names pairs).Nodup) : ofList pairs = pairs := foldl_insert_of_nodup h

theorem contains_eq (fields : Fields α) (name : String) : contains fields name = (names fields).contains name := by
  rw [contains, names, List.contains_eq_any_beq, List.any_map]
  exact List.any_congr rfl fun field => BEq.comm

/-! ### What a change leaves -/

variable {field : String × α} {P : α → Prop} {f : α → α}

theorem mem_of_get?_eq_some (h : get? fields name = some value) : (name, value) ∈ fields := by
  obtain ⟨⟨other, v⟩, hfind, rfl⟩ := Option.map_eq_some_iff.mp h
  obtain rfl : other = name := by simpa using List.find?_some hfind
  exact List.mem_of_find?_eq_some hfind

/-- Fields side by side, with the same names and related values. -/
theorem get?_forall₂ {β : Type} {R : α → β → Prop} {others : Fields β}
    (h : List.Forall₂ (fun f g => f.1 = g.1 ∧ R f.2 g.2) fields others) (name : String) :
    Option.Rel R (get? fields name) (get? others name) := by
  induction h with
  | nil => exact .none
  | @cons f g _ _ hfg _ ih =>
    unfold get? at *
    rw [List.find?_cons, List.find?_cons, hfg.1]
    split
    · exact .some hfg.2
    · exact ih

theorem mem_insert (h : field ∈ insert fields name value) : field ∈ fields ∨ field = (name, value) := by
  induction fields with
  | nil => exact .inr (List.mem_singleton.mp h)
  | cons head rest ih =>
    obtain ⟨other, old⟩ := head
    rw [insert] at h
    split at h
    · next heq =>
      rw [beq_iff_eq.mp heq] at h
      exact (List.mem_cons.mp h).elim .inr fun h => .inl (List.mem_cons_of_mem _ h)
    · rcases List.mem_cons.mp h with rfl | h
      · exact .inl List.mem_cons_self
      · exact (ih h).imp_left (List.mem_cons_of_mem _)

theorem nodup_insert (h : (names fields).Nodup) : (names (insert fields name value)).Nodup := by
  induction fields with
  | nil => exact List.nodup_singleton _
  | cons head rest ih =>
    obtain ⟨other, old⟩ := head
    obtain ⟨hother, hrest⟩ := List.nodup_cons.mp h
    rw [insert]
    split
    · exact h
    · next hne =>
      refine List.nodup_cons.mpr ⟨fun hmem => ?_, ih hrest⟩
      obtain ⟨field, hfield, hname⟩ := List.mem_map.mp hmem
      rcases mem_insert hfield with hfield | rfl
      · exact hother (List.mem_map.mpr ⟨field, hfield, hname⟩)
      · exact hne (beq_iff_eq.mpr hname.symm)

theorem nodup_map {β : Type} {g : String × α → β} (h : (names fields).Nodup) :
    (names (fields.map fun field => (field.1, g field))).Nodup := by
  rwa [names, List.map_map]

theorem erase_sublist (fields : Fields α) (name : String) : (erase fields name).Sublist fields := by
  induction fields with
  | nil => exact .slnil
  | cons head rest ih =>
    rw [erase]
    split
    · exact List.sublist_cons_self ..
    · exact ih.cons_cons _

theorem names_modify (fields : Fields α) (name : String) (f : α → α) : names (modify fields name f) = names fields := by
  induction fields with
  | nil => rfl
  | cons head rest ih =>
    rw [modify]
    split
    · rfl
    · exact congrArg (head.1 :: ·) ih

theorem forall_modify (h : ∀ field ∈ fields, P field.2) (hf : ∀ v, P v → P (f v)) :
    ∀ field ∈ modify fields name f, P field.2 := by
  induction fields with
  | nil => exact h
  | cons head rest ih =>
    obtain ⟨hhead, hrest⟩ := List.forall_mem_cons.mp h
    rw [modify]
    split
    · exact List.forall_mem_cons.mpr ⟨hf _ hhead, hrest⟩
    · exact List.forall_mem_cons.mpr ⟨hhead, ih hrest⟩

/-! ### Names that come more than once -/

variable {before : Fields α} {β : Type}

theorem eraseDups_concat (names : List String) (name : String) :
    (names ++ [name]).eraseDups = names.eraseDups ++ if name ∈ names then [] else [name] := by
  rw [List.eraseDups_append]
  split <;> simp [List.removeAll, List.eraseDups_cons, *]

theorem get?_insert (fields : Fields α) (name other : String) (value : α) :
    get? (insert fields name value) other = if name = other then some value else get? fields other := by
  induction fields with
  | nil => by_cases h : name = other <;> simp [insert, get?, h]
  | cons head rest ih =>
    obtain ⟨first, old⟩ := head
    unfold get? at *
    rw [insert]
    split
    · next heq =>
      obtain rfl : first = name := beq_iff_eq.mp heq
      rw [List.find?_cons, List.find?_cons]
      by_cases h : first = other <;> simp [beq_eq_decide, h]
    · next hne =>
      rw [List.find?_cons, List.find?_cons]
      cases h : first == other with
      | false => exact ih
      | true =>
        -- The first field is what is asked for, so it is not what is written.
        have hname : name ≠ other := fun hname => hne (beq_iff_eq.mpr ((beq_iff_eq.mp h).trans hname.symm))
        rw [if_neg hname]

theorem mem_insert_self (fields : Fields α) (name : String) (value : α) : (name, value) ∈ insert fields name value :=
  mem_of_get?_eq_some (by rw [get?_insert, if_pos rfl])

theorem insert_of_get? (h : get? fields name = some value) : insert fields name value = fields := by
  induction fields with
  | nil => cases h
  | cons head rest ih =>
    obtain ⟨first, old⟩ := head
    unfold get? at *
    rw [List.find?_cons] at h
    rw [insert]
    cases hname : first == name with
    | true =>
      rw [hname] at h
      rw [if_pos rfl, ← Option.some.inj h]
    | false =>
      rw [hname] at h
      rw [if_neg Bool.false_ne_true, ih h]

theorem get?_append_cons (h : name ∉ names before) (value : α) (after : Fields α) :
    get? (before ++ (name, value) :: after) name = some value := by
  have hnone : before.find? (·.1 == name) = none := List.find?_eq_none.mpr fun field hfield hname =>
    h (beq_iff_eq.mp hname ▸ List.mem_map_of_mem hfield)
  simp [get?, List.find?_append, hnone]

theorem merge_append (fields before after : Fields α) :
    merge fields (before ++ after) = merge (merge fields before) after := List.foldl_append

theorem mem_merge (h : field ∈ merge fields pairs) : field ∈ fields ∨ field ∈ pairs := by
  induction pairs generalizing fields with
  | nil => exact .inl h
  | cons pair rest ih =>
    rcases ih h with h | h
    · rcases mem_insert h with h | rfl
      · exact .inl h
      · exact .inr List.mem_cons_self
    · exact .inr (List.mem_cons_of_mem _ h)

theorem mem_of_mem_ofList (h : field ∈ ofList pairs) : field ∈ pairs := (mem_merge h).resolve_left List.not_mem_nil

/-- The last value that is written to a field is the one that is found. -/
theorem get?_merge (fields pairs : Fields α) (name : String) :
    get? (merge fields pairs) name = (get? pairs.reverse name).or (get? fields name) := by
  induction pairs generalizing fields with
  | nil => rfl
  | cons pair rest ih =>
    obtain ⟨other, value⟩ := pair
    rw [merge, List.foldl_cons, ← merge, ih, get?_insert, List.reverse_cons]
    unfold get?
    rw [List.find?_append, List.find?_singleton]
    cases rest.reverse.find? (·.1 == name) <;> by_cases h : other = name <;> simp [h]

theorem get?_ofList (pairs : Fields α) (name : String) : get? (ofList pairs) name = get? pairs.reverse name := by
  have hmerge := get?_merge [] pairs name
  rw [show get? ([] : Fields α) name = none from rfl, Option.or_none] at hmerge
  exact hmerge

theorem names_prefix_insert (fields : Fields α) (name : String) (value : α) :
    names fields <+: names (insert fields name value) := by
  induction fields with
  | nil => exact List.nil_prefix
  | cons head rest ih =>
    rw [insert]
    split
    · exact List.prefix_rfl
    · exact (List.prefix_cons_inj _).mpr ih

theorem names_prefix_merge (fields pairs : Fields α) : names fields <+: names (merge fields pairs) := by
  induction pairs generalizing fields with
  | nil => exact List.prefix_rfl
  | cons pair rest ih => exact (names_prefix_insert ..).trans (ih _)

theorem ofList_ne_nil : ∀ {pairs : Fields α}, pairs ≠ [] → ofList pairs ≠ []
  | [], h => absurd rfl h
  | pair :: rest, _ => fun hnil => by
    have hnames : names [pair] <+: names (ofList (pair :: rest)) := names_prefix_merge [pair] rest
    rw [hnil] at hnames
    exact List.cons_ne_nil _ _ (List.prefix_nil.mp hnames)

/-- A name keeps the place at which it comes first, behind nothing but names that came before it. -/
theorem ofList_split (h : name ∉ names before) (value : α) (after : Fields α) : ∃ earlier last later,
    ofList (before ++ (name, value) :: after) = earlier ++ (name, last) :: later ∧ names earlier ⊆ names before ∧
      get? (before ++ (name, value) :: after).reverse name = some last := by
  have hsub : names (ofList before) ⊆ names before := fun n hn => by
    obtain ⟨field, hfield, rfl⟩ := List.mem_map.mp hn
    exact List.mem_map_of_mem (mem_of_mem_ofList hfield)
  have hnew : name ∉ names (ofList before) := fun hmem => h (hsub hmem)
  -- The fields before it make an object without the name, and the others are merged into that.
  have hmerge : ofList (before ++ (name, value) :: after) = merge (ofList before ++ [(name, value)]) after := by
    rw [← insert_of_not_mem hnew]
    exact merge_append [] before _
  -- Merging leaves the names that are there at their places, and adds names behind them.
  obtain ⟨more, hmore⟩ := names_prefix_merge (ofList before ++ [(name, value)]) after
  rw [← hmerge] at hmore
  obtain ⟨_, later, hsplit, hfirst, -⟩ := List.map_eq_append_iff.mp hmore.symm
  obtain ⟨earlier, _, rfl, hearlier, hlast⟩ := List.map_eq_append_iff.mp (hfirst.trans (List.map_append ..))
  obtain ⟨⟨_, last⟩, rfl, rfl⟩ := List.map_eq_singleton_iff.mp hlast
  rw [List.append_assoc, List.singleton_append] at hsplit
  have hnames : names earlier = names (ofList before) := hearlier
  refine ⟨earlier, last, later, hsplit, hnames ▸ hsub, ?_⟩
  rw [← get?_ofList, hsplit, get?_append_cons (hnames ▸ hnew) last later]

theorem map_insert (g : α → β) (fields : Fields α) (name : String) (value : α) :
    (insert fields name value).map (fun f => (f.1, g f.2)) =
      insert (fields.map fun f => (f.1, g f.2)) name (g value) := by
  induction fields with
  | nil => rfl
  | cons head rest ih =>
    rw [insert, List.map_cons, insert]
    split
    · rfl
    · rw [List.map_cons, ih]

theorem map_merge (g : α → β) (fields pairs : Fields α) :
    (merge fields pairs).map (fun f => (f.1, g f.2)) =
      merge (fields.map fun f => (f.1, g f.2)) (pairs.map fun f => (f.1, g f.2)) := by
  induction pairs generalizing fields with
  | nil => rfl
  | cons pair rest ih => exact (ih _).trans (congrArg (merge · _) (map_insert ..))

theorem map_ofList (g : α → β) (pairs : Fields α) :
    (ofList pairs).map (fun f => (f.1, g f.2)) = ofList (pairs.map fun f => (f.1, g f.2)) := map_merge g [] pairs

/-! ### Distinct names -/

/-- The names are distinct, and all values are among `P`. -/
structure Proper (P : α → Prop) (fields : Fields α) : Prop where
  nodup : (names fields).Nodup
  values : ∀ field ∈ fields, P field.2

namespace Proper

theorem nil : Proper P [] := ⟨List.nodup_nil, fun _ h => nomatch h⟩

theorem get? (h : Proper P fields) (hget : fields.get? name = some value) : P value :=
  h.values _ (mem_of_get?_eq_some hget)

theorem insert (h : Proper P fields) (name : String) (hvalue : P value) : Proper P (fields.insert name value) where
  nodup := nodup_insert h.nodup
  values field hfield := by
    rcases mem_insert hfield with hfield | rfl
    · exact h.values field hfield
    · exact hvalue

theorem erase (h : Proper P fields) (name : String) : Proper P (fields.erase name) where
  nodup := h.nodup.sublist ((erase_sublist fields name).map Prod.fst)
  values field hfield := h.values field ((erase_sublist fields name).subset hfield)

theorem modify (h : Proper P fields) (name : String) (hf : ∀ v, P v → P (f v)) : Proper P (fields.modify name f) where
  nodup := names_modify fields name f ▸ h.nodup
  values := forall_modify h.values hf

theorem merge (h : Proper P fields) (hpairs : ∀ pair ∈ pairs, P pair.2) : Proper P (fields.merge pairs) := by
  induction pairs generalizing fields with
  | nil => exact h
  | cons pair rest ih =>
    obtain ⟨hpair, hrest⟩ := List.forall_mem_cons.mp hpairs
    exact ih (h.insert _ hpair) hrest

theorem ofList (hpairs : ∀ pair ∈ pairs, P pair.2) : Proper P (Fields.ofList pairs) := nil.merge hpairs

end Proper

end DocQuery.Fields
