import DocQuery.Proofs.Fields

/-! Changing or dropping the field of one name. This is what a removal does at its first step. Fields of different
    names do not meet, and what is done twice to a field is done once with both changes, if no name comes twice. -/

namespace DocQuery.Fields

variable {α : Type} {fields : Fields α} {name other : String} {value : α} {f g : α → Option α}

/-- Changes the value of the field if it is there, and drops the field where there is no new value. -/
def adjust (fields : Fields α) (name : String) (f : α → Option α) : Fields α :=
  match fields with
  | [] => []
  | (other, old) :: rest =>
    if other == name then (f old).toList.map (other, ·) ++ rest else (other, old) :: adjust rest name f

theorem erase_eq_adjust (fields : Fields α) (name : String) : fields.erase name = fields.adjust name fun _ => none := by
  induction fields with
  | nil => rfl
  | cons head rest ih => rw [erase, adjust, ih]; rfl

theorem modify_eq_adjust (fields : Fields α) (name : String) (f : α → α) :
    fields.modify name f = fields.adjust name fun v => some (f v) := by
  induction fields with
  | nil => rfl
  | cons head rest ih => rw [modify, adjust, ih]; rfl

theorem adjust_cons_self (old : α) (rest : Fields α) :
    adjust ((name, old) :: rest) name f = (f old).toList.map (name, ·) ++ rest := by
  rw [adjust, if_pos (beq_self_eq_true name)]

theorem adjust_cons_of_ne (h : other ≠ name) (old : α) (rest : Fields α) :
    adjust ((other, old) :: rest) name f = (other, old) :: adjust rest name f := by
  rw [adjust, if_neg (by simpa using h)]

theorem insert_cons_self (old : α) (rest : Fields α) :
    insert ((name, old) :: rest) name value = (name, value) :: rest := by
  rw [insert, if_pos (beq_self_eq_true name)]

theorem insert_cons_of_ne (h : other ≠ name) (old : α) (rest : Fields α) :
    insert ((other, old) :: rest) name value = (other, old) :: insert rest name value := by
  rw [insert, if_neg (by simpa using h)]

theorem adjust_of_not_mem (h : name ∉ names fields) : fields.adjust name f = fields := by
  induction fields with
  | nil => rfl
  | cons head rest ih =>
    obtain ⟨hne, hrest⟩ := not_or.mp (mt List.mem_cons.mpr h)
    rw [adjust_cons_of_ne (Ne.symm hne), ih hrest]

/-! ### Reading -/

theorem get?_cons (first : String) (old : α) (rest : Fields α) :
    get? ((first, old) :: rest) name = if first = name then some old else get? rest name := by
  by_cases h : first = name <;> simp [get?, h]

theorem get?_adjust_of_ne (h : name ≠ other) : (fields.adjust name f).get? other = fields.get? other := by
  induction fields with
  | nil => rfl
  | cons head rest ih =>
    obtain ⟨first, old⟩ := head
    by_cases hfirst : first = name
    · rw [hfirst, adjust_cons_self, get?_cons, if_neg h]
      cases f old with
      | none => rfl
      | some v => exact (get?_cons ..).trans (if_neg h)
    · rw [adjust_cons_of_ne hfirst, get?_cons, get?_cons, ih]

theorem get?_modify (fields : Fields α) (name : String) (f : α → α) :
    (fields.modify name f).get? name = (fields.get? name).map f := by
  induction fields with
  | nil => rfl
  | cons head rest ih =>
    obtain ⟨first, old⟩ := head
    rw [modify, get?_cons]
    by_cases hfirst : first = name
    · rw [if_pos (beq_iff_eq.mpr hfirst), get?_cons, if_pos hfirst, if_pos hfirst, Option.map_some]
    · rw [if_neg (mt beq_iff_eq.mp hfirst), get?_cons, if_neg hfirst, if_neg hfirst, ih]

theorem get?_of_not_mem (h : name ∉ names fields) : fields.get? name = none := by
  induction fields with
  | nil => rfl
  | cons head rest ih =>
    obtain ⟨hne, hrest⟩ := not_or.mp (mt List.mem_cons.mpr h)
    rw [get?_cons, if_neg (Ne.symm hne), ih hrest]

theorem get?_erase (h : (names fields).Nodup) : (fields.erase name).get? name = none := by
  induction fields with
  | nil => rfl
  | cons head rest ih =>
    obtain ⟨first, old⟩ := head
    obtain ⟨hfirst, hrest⟩ := List.nodup_cons.mp h
    rw [erase]
    split
    · next hname => exact get?_of_not_mem (beq_iff_eq.mp hname ▸ hfirst)
    · next hname => rw [get?_cons, if_neg (mt beq_iff_eq.mpr hname), ih hrest]

/-! ### Two changes -/

/-- Fields of different names do not meet. -/
theorem adjust_adjust_of_ne (h : name ≠ other) :
    (fields.adjust name f).adjust other g = (fields.adjust other g).adjust name f := by
  induction fields with
  | nil => rfl
  | cons head rest ih =>
    obtain ⟨first, old⟩ := head
    -- The first of the two fields may go away with its change, which the other one does not notice.
    by_cases hname : first = name
    · subst hname
      rw [adjust_cons_self, adjust_cons_of_ne h, adjust_cons_self]
      cases f old with
      | none => rfl
      | some v => exact adjust_cons_of_ne h v rest
    · by_cases hother : first = other
      · subst hother
        rw [adjust_cons_of_ne hname, adjust_cons_self, adjust_cons_self]
        cases g old with
        | none => rfl
        | some v => exact (adjust_cons_of_ne hname v rest).symm
      · rw [adjust_cons_of_ne hname, adjust_cons_of_ne hother, adjust_cons_of_ne hother, adjust_cons_of_ne hname, ih]

theorem adjust_adjust (h : (names fields).Nodup) :
    (fields.adjust name f).adjust name g = fields.adjust name fun v => (f v).bind g := by
  induction fields with
  | nil => rfl
  | cons head rest ih =>
    obtain ⟨first, old⟩ := head
    obtain ⟨hfirst, hrest⟩ := List.nodup_cons.mp h
    by_cases hname : first = name
    · subst hname
      rw [adjust_cons_self, adjust_cons_self]
      cases f old with
      | none => exact adjust_of_not_mem hfirst
      | some v => exact adjust_cons_self v rest
    · rw [adjust_cons_of_ne hname, adjust_cons_of_ne hname, adjust_cons_of_ne hname, ih hrest]

theorem adjust_congr (h : ∀ field ∈ fields, f field.2 = g field.2) : fields.adjust name f = fields.adjust name g := by
  induction fields with
  | nil => rfl
  | cons head rest ih =>
    obtain ⟨hhead, hrest⟩ := List.forall_mem_cons.mp h
    rw [adjust, adjust, hhead, ih hrest]

/-! ### A change and a write -/

theorem adjust_insert_of_ne (h : name ≠ other) :
    (fields.insert name value).adjust other f = (fields.adjust other f).insert name value := by
  induction fields with
  | nil => exact adjust_cons_of_ne h value []
  | cons head rest ih =>
    obtain ⟨first, old⟩ := head
    by_cases hname : first = name
    · subst hname
      rw [insert_cons_self, adjust_cons_of_ne h, adjust_cons_of_ne h, insert_cons_self]
    · rw [insert_cons_of_ne hname]
      by_cases hother : first = other
      · subst hother
        rw [adjust_cons_self, adjust_cons_self]
        cases f old with
        | none => rfl
        | some v => exact (insert_cons_of_ne hname v rest).symm
      · rw [adjust_cons_of_ne hother, adjust_cons_of_ne hother, insert_cons_of_ne hname, ih]

theorem erase_insert (fields : Fields α) (name : String) (value : α) :
    (fields.insert name value).erase name = fields.erase name := by
  induction fields with
  | nil => exact if_pos (beq_self_eq_true name)
  | cons head rest ih =>
    rw [insert, erase]
    split
    · next hname => exact if_pos hname
    · next hname => rw [erase, if_neg hname, ih]

theorem modify_insert (fields : Fields α) (name : String) (value : α) (f : α → α) :
    (fields.insert name value).modify name f = fields.insert name (f value) := by
  induction fields with
  | nil => exact if_pos (beq_self_eq_true name)
  | cons head rest ih =>
    rw [insert, insert]
    split
    · next hname => exact if_pos hname
    · next hname => rw [modify, if_neg hname, ih]

theorem insert_modify (fields : Fields α) (name : String) (value : α) (f : α → α) :
    (fields.modify name f).insert name value = fields.insert name value := by
  induction fields with
  | nil => rfl
  | cons head rest ih =>
    rw [modify, insert]
    split
    · next hname => exact if_pos hname
    · next hname => rw [insert, if_neg hname, ih]

theorem insert_insert (fields : Fields α) (name : String) (value later : α) :
    (fields.insert name value).insert name later = fields.insert name later := by
  induction fields with
  | nil => exact insert_cons_self value []
  | cons head rest ih =>
    rw [insert, insert]
    split
    · next hname => exact if_pos hname
    · next hname => rw [insert, if_neg hname, ih]

end DocQuery.Fields
