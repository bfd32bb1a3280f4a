import Mathlib.Data.List.Induction
import DocQuery.Proofs.Fields.Adjust

/-! The names of fields. A write adds its name at the end if it is new and leaves the names as they are if it is not,
    so that fields are known by their names, in their order, and by the value that each name has. The names of fields
    that are written one after the other are kept where they come first. -/

namespace DocQuery.Fields

variable {α : Type} {fields others pairs : Fields α} {name other : String} {value otherValue : α}

theorem names_insert (fields : Fields α) (name : String) (value : α) :
    names (fields.insert name value) = if name ∈ names fields then names fields else names fields ++ [name] := by
  split
  · next hmem =>
    induction fields with
    | nil => exact absurd hmem List.not_mem_nil
    | cons head rest ih =>
      obtain ⟨first, old⟩ := head
      by_cases hfirst : first = name
      · rw [hfirst, insert_cons_self]
        rfl
      · rw [insert_cons_of_ne hfirst]
        exact congrArg (first :: ·) (ih ((List.mem_cons.mp hmem).resolve_left (Ne.symm hfirst)))
  · next hnew =>
    rw [insert_of_not_mem hnew]
    exact List.map_append

theorem mem_names_insert : other ∈ names (fields.insert name value) ↔ other ∈ names fields ∨ other = name := by
  rw [names_insert]
  split
  · next hmem =>
    refine (or_iff_left_of_imp ?_).symm
    rintro rfl
    exact hmem
  · rw [List.mem_append, List.mem_singleton]

theorem names_insert_congr (h : names fields = names others) (name : String) (value otherValue : α) :
    names (fields.insert name value) = names (others.insert name otherValue) := by
  rw [names_insert, names_insert, h]

theorem names_ofList (pairs : Fields α) : names (ofList pairs) = (names pairs).eraseDups := by
  induction pairs using List.reverseRecOn with
  | nil => rfl
  | append_singleton pairs pair ih =>
    have hlast : ofList (pairs ++ [pair]) = (ofList pairs).insert pair.1 pair.2 := List.foldl_concat ..
    have hnames : names (pairs ++ [pair]) = names pairs ++ [pair.1] := List.map_append
    rw [hlast, hnames, names_insert, eraseDups_concat, ih]
    simp only [List.mem_eraseDups]
    split
    · rw [List.append_nil]
    · rfl

theorem exists_get?_of_mem (h : name ∈ names fields) : ∃ value, fields.get? name = some value := by
  induction fields with
  | nil => exact absurd h List.not_mem_nil
  | cons head rest ih =>
    obtain ⟨first, old⟩ := head
    rw [get?_cons]
    split
    · exact ⟨old, rfl⟩
    · next hfirst => exact ih ((List.mem_cons.mp h).resolve_left (Ne.symm hfirst))

theorem mem_names_of_get? (h : fields.get? name = some value) : name ∈ names fields :=
  List.mem_map_of_mem (mem_of_get?_eq_some h)

theorem get?_eq_none_iff : fields.get? name = none ↔ name ∉ names fields := by
  refine ⟨fun h hmem => ?_, get?_of_not_mem⟩
  obtain ⟨value, hvalue⟩ := exists_get?_of_mem hmem
  exact nomatch h.symm.trans hvalue

/-- Fields of the same names in the same order are the same if each name has the same value. -/
theorem eq_of_names (h : (names fields).Nodup) (hnames : names fields = names others)
    (hget : ∀ name ∈ names fields, fields.get? name = others.get? name) : fields = others := by
  induction fields generalizing others with
  | nil => exact (List.map_eq_nil_iff.mp hnames.symm).symm
  | cons head rest ih =>
    obtain ⟨first, value⟩ := head
    obtain ⟨⟨second, otherValue⟩, more, rfl, hsecond, hrest⟩ := List.map_eq_cons_iff.mp hnames.symm
    obtain rfl : second = first := hsecond
    obtain ⟨hfirst, hnodup⟩ := List.nodup_cons.mp h
    have hvalue := hget second List.mem_cons_self
    rw [get?_cons, get?_cons, if_pos rfl, if_pos rfl] at hvalue
    rw [Option.some.inj hvalue, ih hnodup hrest.symm]
    intro name hname
    have hne : second ≠ name := fun heq => hfirst (heq ▸ hname)
    have hsame := hget name (List.mem_cons_of_mem _ hname)
    rwa [get?_cons, get?_cons, if_neg hne, if_neg hne] at hsame

end DocQuery.Fields
