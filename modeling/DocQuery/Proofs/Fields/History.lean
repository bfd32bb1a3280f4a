import DocQuery.Fields.Edit
import DocQuery.Proofs.Fields.Names

/-! Fields after a history of edits. An edit works on the list at a place; it finds the value of its name and comes to
    a write, a change or a removal of the field. A history tells all there is to know about the fields: which names
    stand, in what order they came, and which value was written last. One more edit keeps this, and so does any
    number of them. -/

namespace DocQuery.Fields

variable {α : Type} {fields before after : Fields α} {edit : Edit α} {name other : String} {value old : α}

/-! ### The place of a field -/

theorem exists_split_of_mem (h : name ∈ names fields) :
    ∃ before value after, fields = before ++ (name, value) :: after ∧ name ∉ names before := by
  obtain ⟨first, rest, hnames, hfirst⟩ := List.eq_append_cons_of_mem h
  obtain ⟨before, _, rfl, rfl, htail⟩ := List.map_eq_append_iff.mp hnames
  obtain ⟨⟨_, value⟩, after, rfl, rfl, -⟩ := List.map_eq_cons_iff.mp htail
  exact ⟨before, value, after, rfl, hfirst⟩

theorem findFinIdx?_of_not_mem (h : name ∉ names fields) : fields.findFinIdx? (·.1 == name) = none := by
  rw [List.findFinIdx?_eq_none_iff]
  intro field hfield hname
  exact h (beq_iff_eq.mp hname ▸ List.mem_map_of_mem hfield)

theorem findFinIdx?_append_cons (h : name ∉ names before) (value : α) (after : Fields α) :
    ∃ hlt, (before ++ (name, value) :: after).findFinIdx? (·.1 == name) = some ⟨before.length, hlt⟩ := by
  have hlt : before.length < (before ++ (name, value) :: after).length := by simp
  refine ⟨hlt, List.findFinIdx?_eq_some_iff.mpr ⟨by simp, fun place hplace hname => h ?_⟩⟩
  have hbefore : place.val < before.length := hplace
  rw [Fin.getElem_fin, List.getElem_append_left hbefore] at hname
  exact beq_iff_eq.mp hname ▸ List.mem_map_of_mem (List.getElem_mem hbefore)

theorem insert_append_cons (h : name ∉ names before) (old value : α) (after : Fields α) :
    insert (before ++ (name, old) :: after) name value = before ++ (name, value) :: after := by
  induction before with
  | nil => exact insert_cons_self old after
  | cons head rest ih =>
    obtain ⟨hne, hrest⟩ := not_or.mp (mt List.mem_cons.mpr h)
    rw [List.cons_append, insert_cons_of_ne (Ne.symm hne), ih hrest, List.cons_append]

theorem adjust_append_cons (h : name ∉ names before) (old : α) (after : Fields α) (f : α → Option α) :
    adjust (before ++ (name, old) :: after) name f = before ++ ((f old).toList.map (name, ·) ++ after) := by
  induction before with
  | nil => exact adjust_cons_self old after
  | cons head rest ih =>
    obtain ⟨hne, hrest⟩ := not_or.mp (mt List.mem_cons.mpr h)
    rw [List.cons_append, adjust_cons_of_ne (Ne.symm hne), ih hrest, List.cons_append]

/-! ### What an edit comes to -/

/-- The fields that the edit leaves. -/
def Edit.on (fields : Fields α) : Edit α → Fields α
  | insert name value => fields.insert name value
  | overwrite name value => fields.modify name fun _ => value
  | remove name => fields.erase name

/-- What stands under the name of the edit afterwards. -/
def Edit.leaves (found : Option α) : Edit α → Option α
  | insert _ value => some value
  | overwrite _ value => found.map fun _ => value
  | remove _ => none

theorem on_append_cons (h : edit.name ∉ names before) (old : α) (after : Fields α) :
    edit.on (before ++ (edit.name, old) :: after) =
      before ++ ((edit.leaves (some old)).toList.map (edit.name, ·) ++ after) := by
  cases edit with
  | insert name value => exact insert_append_cons h old value after
  | overwrite name value => exact (modify_eq_adjust ..).trans (adjust_append_cons h old after _)
  | remove name => exact (erase_eq_adjust ..).trans (adjust_append_cons h old after _)

theorem on_of_not_mem (h : edit.name ∉ names fields) :
    edit.on fields = fields ++ (edit.leaves none).toList.map (edit.name, ·) := by
  cases edit with
  | insert name value => exact insert_of_not_mem h
  | overwrite name value =>
    exact (modify_eq_adjust ..).trans ((adjust_of_not_mem h).trans (List.append_nil fields).symm)
  | remove name => exact (erase_eq_adjust ..).trans ((adjust_of_not_mem h).trans (List.append_nil fields).symm)

theorem apply_eq (fields : Fields α) (edit : Edit α) :
    fields.apply edit = (fields.get? edit.name, edit.on fields) := by
  unfold apply
  by_cases hmem : edit.name ∈ names fields
  · obtain ⟨before, old, after, rfl, hbefore⟩ := exists_split_of_mem hmem
    obtain ⟨_, hplace⟩ := findFinIdx?_append_cons hbefore old after
    rw [hplace, get?_append_cons hbefore, on_append_cons hbefore]
    cases edit <;> simp [Edit.leaves, List.eraseIdx_append_of_length_le]
  · rw [findFinIdx?_of_not_mem hmem, get?_of_not_mem hmem, on_of_not_mem hmem]
    cases edit <;> simp [Edit.leaves, Edit.name]

theorem get?_on (h : (names fields).Nodup) (edit : Edit α) (other : String) :
    (edit.on fields).get? other = if edit.name = other then edit.leaves (fields.get? other) else fields.get? other := by
  by_cases hname : edit.name = other
  · subst hname
    rw [if_pos rfl]
    cases edit with
    | insert name value => exact (get?_insert ..).trans (if_pos rfl)
    | overwrite name value => exact get?_modify ..
    | remove name => exact get?_erase h
  · rw [if_neg hname]
    cases edit with
    | insert name value => exact (get?_insert ..).trans (if_neg hname)
    | overwrite name value => exact congrArg (get? · other) (modify_eq_adjust ..) |>.trans (get?_adjust_of_ne hname)
    | remove name => exact congrArg (get? · other) (erase_eq_adjust ..) |>.trans (get?_adjust_of_ne hname)

/-! ### Histories -/

variable {history : List (Edit α)} {place : Nat}

def Edit.Inserts (edit : Edit α) (name : String) : Prop := ∃ value, edit = .insert name value

def Edit.Writes (edit : Edit α) (name : String) (value : α) : Prop :=
  edit = .insert name value ∨ edit = .overwrite name value

/-- The name was inserted and has not been removed since. -/
def Stands (history : List (Edit α)) (name : String) : Prop :=
  ∃ earlier edit later, history = earlier ++ edit :: later ∧ edit.Inserts name ∧ ∀ other ∈ later, other ≠ .remove name

/-- The name came in with the insertion at this place of the history: it did not stand before, and has not been
    removed since. -/
def Enters (history : List (Edit α)) (name : String) (place : Nat) : Prop :=
  ∃ earlier edit later, history = earlier ++ edit :: later ∧
    (edit.Inserts name ∧ earlier.length = place ∧ ¬Stands earlier name) ∧ ∀ other ∈ later, other ≠ .remove name

/-- The one name came in before the other. -/
def CameBefore (history : List (Edit α)) (name other : String) : Prop :=
  ∀ i j, Enters history name i → Enters history other j → i < j

/-- The name stands, and the value was the last one to be written to it. -/
def LastWritten (history : List (Edit α)) (name : String) (value : α) : Prop :=
  Stands history name ∧ ∃ earlier edit later, history = earlier ++ edit :: later ∧
    edit.Writes name value ∧ ∀ other ∈ later, other.name ≠ name

/-- Of a history with one more edit, this edit is the one in question, or one before it is and this one is none that
    may not follow. -/
theorem exists_split_concat_iff {P : List (Edit α) → Edit α → Prop} {Q : Edit α → Prop} :
    (∃ earlier e later, history ++ [edit] = earlier ++ e :: later ∧ P earlier e ∧ ∀ other ∈ later, Q other) ↔
      P history edit ∨
        (∃ earlier e later, history = earlier ++ e :: later ∧ P earlier e ∧ ∀ other ∈ later, Q other) ∧ Q edit := by
  constructor
  · rintro ⟨earlier, e, later, hsplit, he, hlater⟩
    rcases List.eq_nil_or_concat' later with rfl | ⟨rest, last, rfl⟩
    · obtain ⟨rfl, rfl⟩ := List.append_singleton_inj.mp hsplit
      exact .inl he
    · rw [← List.cons_append, ← List.append_assoc] at hsplit
      obtain ⟨rfl, rfl⟩ := List.append_singleton_inj.mp hsplit
      exact .inr ⟨⟨earlier, e, rest, rfl, he, fun other hother => hlater other (List.mem_append_left _ hother)⟩,
        hlater edit List.mem_concat_self⟩
  · rintro (he | ⟨⟨earlier, e, later, rfl, he, hlater⟩, hedit⟩)
    · exact ⟨history, edit, [], rfl, he, fun _ hother => nomatch hother⟩
    · refine ⟨earlier, e, later ++ [edit], by simp, he, fun other hother => ?_⟩
      rcases List.mem_append.mp hother with hother | hother
      · exact hlater other hother
      · exact List.mem_singleton.mp hother ▸ hedit

theorem not_stands_nil (name : String) : ¬Stands ([] : List (Edit α)) name := by
  rintro ⟨earlier, edit, later, hnil, -⟩
  simp at hnil

theorem stands_concat :
    Stands (history ++ [edit]) name ↔ edit.Inserts name ∨ Stands history name ∧ edit ≠ .remove name :=
  exists_split_concat_iff

theorem enters_concat : Enters (history ++ [edit]) name place ↔
    (edit.Inserts name ∧ history.length = place ∧ ¬Stands history name) ∨
      Enters history name place ∧ edit ≠ .remove name :=
  exists_split_concat_iff

theorem lastWritten_concat : LastWritten (history ++ [edit]) name value ↔
    edit = .insert name value ∨ edit = .overwrite name value ∧ Stands history name ∨
      LastWritten history name value ∧ edit.name ≠ name := by
  unfold LastWritten
  rw [exists_split_concat_iff, stands_concat]
  constructor
  · rintro ⟨hstands, (rfl | rfl) | ⟨hlast, hname⟩⟩
    · exact .inl rfl
    · rcases hstands with ⟨_, hinsert⟩ | ⟨hstands, -⟩
      · exact nomatch hinsert
      · exact .inr (.inl ⟨rfl, hstands⟩)
    · rcases hstands with ⟨_, rfl⟩ | ⟨hstands, -⟩
      · exact absurd rfl hname
      · exact .inr (.inr ⟨⟨hstands, hlast⟩, hname⟩)
  · rintro (rfl | ⟨rfl, hstands⟩ | ⟨⟨hstands, hlast⟩, hname⟩)
    · exact ⟨.inl ⟨value, rfl⟩, .inl (.inl rfl)⟩
    · exact ⟨.inr ⟨hstands, nofun⟩, .inl (.inr rfl)⟩
    · exact ⟨.inr ⟨hstands, fun h => hname (congrArg Edit.name h)⟩, .inr ⟨hlast, hname⟩⟩

theorem Enters.lt_length (h : Enters history name place) : place < history.length := by
  obtain ⟨earlier, edit, later, rfl, ⟨-, rfl, -⟩, -⟩ := h
  simp

theorem Enters.stands (h : Enters history name place) : Stands history name := by
  obtain ⟨earlier, edit, later, hsplit, ⟨hinsert, -, -⟩, hlater⟩ := h
  exact ⟨earlier, edit, later, hsplit, hinsert, hlater⟩

/-- A name that stands came in somewhere. -/
theorem Stands.exists_enters (h : Stands history name) : ∃ place, Enters history name place := by
  induction history using List.reverseRecOn with
  | nil => exact absurd h (not_stands_nil name)
  | append_singleton history edit ih =>
    by_cases hbefore : Stands history name
    · -- The name came in earlier, and the last edit does not remove it.
      obtain ⟨place, hplace⟩ := ih hbefore
      have hkept : edit ≠ .remove name := by
        rcases stands_concat.mp h with ⟨value, rfl⟩ | ⟨-, hkept⟩
        · exact nofun
        · exact hkept
      exact ⟨place, enters_concat.mpr (.inr ⟨hplace, hkept⟩)⟩
    · rcases stands_concat.mp h with hinsert | ⟨hstands, -⟩
      · exact ⟨history.length, enters_concat.mpr (.inl ⟨hinsert, rfl, hbefore⟩)⟩
      · exact absurd hstands hbefore

/-! ### Fields and their history -/

/-- The fields are what the history says: each name that stands is there once, in the order in which the names came
    in, with the value that was written last. -/
structure Reflects (fields : Fields α) (history : List (Edit α)) : Prop where
  nodup : (names fields).Nodup
  mem_names : ∀ name, name ∈ names fields ↔ Stands history name
  ordered : (names fields).Pairwise (CameBefore history)
  get? : ∀ name value, fields.get? name = some value ↔ LastWritten history name value

theorem mem_names_on (h : (names fields).Nodup) (edit : Edit α) (other : String) :
    other ∈ names (edit.on fields) ↔ edit.Inserts other ∨ other ∈ names fields ∧ edit ≠ .remove other := by
  cases edit with
  | insert name value =>
    refine mem_names_insert.trans ?_
    simp [Edit.Inserts, or_comm, eq_comm]
  | overwrite name value =>
    rw [Edit.on, names_modify]
    simp [Edit.Inserts]
  | remove name =>
    -- Only with distinct names is the name gone after its first field is removed.
    rw [← not_iff_not, ← get?_eq_none_iff, get?_on h]
    by_cases hname : name = other <;> simp [Edit.name, Edit.leaves, Edit.Inserts, get?_eq_none_iff, hname]

namespace Reflects

theorem nil : Reflects ([] : Fields α) [] where
  nodup := List.nodup_nil
  mem_names name := iff_of_false List.not_mem_nil (not_stands_nil name)
  ordered := List.Pairwise.nil
  get? name _ := iff_of_false nofun fun h => not_stands_nil name h.1

theorem exists_get?_iff (h : Reflects fields history) :
    (∃ value, fields.get? name = some value) ↔ Stands history name := by
  rw [← h.mem_names]
  constructor
  · rintro ⟨value, hvalue⟩
    exact mem_names_of_get? hvalue
  · exact exists_get?_of_mem

/-- One more edit does not change where the names came in that stood before it. -/
theorem enters_of_mem (h : Reflects fields history) (hmem : name ∈ names fields)
    (henters : Enters (history ++ [edit]) name place) : Enters history name place := by
  rcases enters_concat.mp henters with ⟨-, -, hnew⟩ | ⟨henters, -⟩
  · exact absurd ((h.mem_names name).mp hmem) hnew
  · exact henters

theorem ordered_concat (h : Reflects fields history) (edit : Edit α) {kept : List String}
    (hsub : kept.Sublist (names fields)) : kept.Pairwise (CameBefore (history ++ [edit])) := by
  refine (h.ordered.sublist hsub).imp_of_mem fun ha hb hlt i j hi hj => ?_
  exact hlt i j (h.enters_of_mem (hsub.subset ha) hi) (h.enters_of_mem (hsub.subset hb) hj)

/-- A name that comes in comes in last. -/
theorem ordered_insert (h : Reflects fields history) (name : String) (value : α) :
    (names (fields.insert name value)).Pairwise (CameBefore (history ++ [.insert name value])) := by
  rw [names_insert]
  split
  · exact h.ordered_concat _ (List.Sublist.refl _)
  · next hnew =>
    refine List.pairwise_append.mpr ⟨h.ordered_concat _ (List.Sublist.refl _), List.pairwise_singleton .., ?_⟩
    intro a ha b hb i j hi hj
    obtain rfl := List.mem_singleton.mp hb
    have hlt : i < history.length := (h.enters_of_mem ha hi).lt_length
    rcases enters_concat.mp hj with ⟨-, rfl, -⟩ | ⟨hj, -⟩
    · exact hlt
    · exact absurd ((h.mem_names b).mpr hj.stands) hnew

theorem on (h : Reflects fields history) (edit : Edit α) : Reflects (edit.on fields) (history ++ [edit]) where
  nodup := by
    cases edit with
    | insert name value => exact nodup_insert h.nodup
    | overwrite name value => exact names_modify fields name _ ▸ h.nodup
    | remove name => exact h.nodup.sublist ((erase_sublist fields name).map Prod.fst)
  mem_names name := by
    rw [mem_names_on h.nodup, h.mem_names, stands_concat]
  ordered := by
    cases edit with
    | insert name value => exact h.ordered_insert name value
    | overwrite name value =>
      rw [Edit.on, names_modify]
      exact h.ordered_concat _ (List.Sublist.refl _)
    | remove name => exact h.ordered_concat _ ((erase_sublist fields name).map Prod.fst)
  get? name value := by
    rw [get?_on h.nodup, lastWritten_concat]
    split
    · next hname =>
      subst hname
      cases edit with
      | insert name written => simp [Edit.leaves, Edit.name]
      | overwrite name written =>
        rw [Edit.leaves, Option.map_eq_some_iff, exists_and_right, Edit.name, h.exists_get?_iff]
        simp [and_comm]
      | remove name => simp [Edit.leaves, Edit.name]
    · next hname =>
      have hinsert : edit ≠ .insert name value := fun heq => hname (congrArg Edit.name heq)
      have hoverwrite : edit ≠ .overwrite name value := fun heq => hname (congrArg Edit.name heq)
      simp [h.get?, hinsert, hoverwrite, hname]

end Reflects

/-! ### Runs -/

/-- The fields after the edits, one after the other. -/
def run (fields : Fields α) (edits : List (Edit α)) : Fields α :=
  edits.foldl (fun fields edit => (fields.apply edit).2) fields

theorem run_concat (fields : Fields α) (edits : List (Edit α)) (edit : Edit α) :
    run fields (edits ++ [edit]) = edit.on (run fields edits) := by
  rw [run, List.foldl_concat, ← run, apply_eq]

theorem run_append (fields : Fields α) (edits more : List (Edit α)) :
    run fields (edits ++ more) = run (run fields edits) more := List.foldl_append

theorem run_reflects (history : List (Edit α)) : Reflects (run [] history) history := by
  induction history using List.reverseRecOn with
  | nil => exact .nil
  | append_singleton history edit ih =>
    rw [run_concat]
    exact ih.on edit

/-- Pairs are written as if by insertions. -/
theorem ofList_eq_run (pairs : List (String × α)) :
    ofList pairs = run [] (pairs.map fun pair => .insert pair.1 pair.2) := by
  induction pairs using List.reverseRecOn with
  | nil => rfl
  | append_singleton pairs pair ih =>
    rw [List.map_append, List.map_singleton, run_concat, ← ih]
    exact List.foldl_concat ..

/-- Fields that are made of any pairs and edited in any way have distinct names, which stand in the order of their
    first insertion since they were last removed, with the last value that was written since; a name that was never
    inserted, or was removed and not inserted again, has no value. Each edit then hands out the value that its name
    has, and leaves what a write, a change or a removal of the field leaves. -/
theorem run_refines_history (pairs : List (String × α)) (edits : List (Edit α)) :
    let history := pairs.map (fun pair => .insert pair.1 pair.2) ++ edits
    let fields := run (ofList pairs) edits
    Reflects fields history ∧ (∀ name, fields.get? name = none ↔ ¬Stands history name) ∧
      (∀ name, Stands history name ↔ ∃ place, Enters history name place) ∧
      ∀ edit, fields.apply edit = (fields.get? edit.name, edit.on fields) := by
  intro history fields
  have hfields : fields = run [] history := by rw [run_append, ← ofList_eq_run]
  have hreflects : Reflects fields history := hfields ▸ run_reflects history
  refine ⟨hreflects, fun name => ?_, fun name => ⟨Stands.exists_enters, ?_⟩, apply_eq fields⟩
  · rw [get?_eq_none_iff, hreflects.mem_names]
  · rintro ⟨place, hplace⟩
    exact hplace.stands

/-- A name that is removed and inserted again comes back at the end. -/
example : run [("b", 1), ("a", 2)] [.insert "b" 3, .remove "b", .overwrite "b" 4, .overwrite "a" 5, .insert "b" 6] =
    [("a", 5), ("b", 6)] := by
  decide

end DocQuery.Fields
