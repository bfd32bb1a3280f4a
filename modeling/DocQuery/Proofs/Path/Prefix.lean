import DocQuery.Proofs.Value.Recoded

/-! Paths and their beginnings. A path leads on from what its beginning finds, so two values in which the beginning
    finds equal values are equal at the whole path, too. A path that is not the beginning of another one finds nothing
    in the document that is made for the other one. -/

namespace DocQuery.Path

variable {v w : Value} {path p q : Path}

/-! ### Equal values -/

theorem step?_of_compare (h : v.compare w = .eq) (segment : String) :
    Option.Rel (fun v w => v.compare w = .eq) (step? v segment) (step? w segment) := by
  have hrank := Value.rank_of_compare_eq h
  cases v with
  | object fs =>
    cases w with
    | object gs => exact Fields.get?_forall₂ (Value.compare_object.mp h) segment
    | _ => cases hrank
  | array xs =>
    cases w with
    | array ys =>
      rw [step?, step?]
      cases index? segment with
      | none => exact .none
      | some i => exact getElem?_forall₂ (Value.compare_array.mp h) i
    | _ => cases hrank
  | _ =>
    cases w with
    | object | array => cases hrank
    | _ => exact .none

theorem get?_of_compare (path : Path) (h : v.compare w = .eq) :
    Option.Rel (fun v w => v.compare w = .eq) (path.get? v) (path.get? w) := by
  induction path generalizing v w with
  | nil => exact .some h
  | cons segment rest ih =>
    have hstep := step?_of_compare h segment
    rw [get?, get?]
    generalize step? v segment = x at hstep ⊢
    generalize step? w segment = y at hstep ⊢
    cases hstep with
    | none => exact .none
    | some hchild => exact ih hchild

/-- What a path finds, or missing. -/
def read (path : Path) (v : Value) : Value := (path.get? v).getD .missing

theorem read_of_compare (path : Path) (h : v.compare w = .eq) : (path.read v).compare (path.read w) = .eq := by
  have hget := get?_of_compare path h
  unfold read
  generalize path.get? v = x at hget ⊢
  generalize path.get? w = y at hget ⊢
  cases hget with
  | none => rfl
  | some h => exact h

/-! ### Beginnings -/

theorem get?_append (p q : Path) (v : Value) : (p ++ q).get? v = (p.get? v).bind q.get? := by
  induction p generalizing v with
  | nil => rfl
  | cons segment p ih =>
    rw [List.cons_append, get?, get?, Option.bind_assoc]
    exact congrArg _ (funext ih)

theorem read_append (p q : Path) (v : Value) : (p ++ q).read v = q.read (p.read v) := by
  unfold read
  rw [get?_append]
  cases p.get? v with
  | some child => rfl
  | none => cases q <;> rfl

/-- Values that are equal where the path begins are equal where it ends. -/
theorem compare_read_of_beginning (hbegins : p <+: q) (h : (p.read v).compare (p.read w) = .eq) :
    (q.read v).compare (q.read w) = .eq := by
  obtain ⟨rest, rfl⟩ := hbegins
  rw [read_append, read_append]
  exact read_of_compare rest h

/-! ### Documents for one path -/

/-- The document with the value at the path, and nothing beside it. -/
def nest : Path → Value → Value
  | [], v => v
  | segment :: rest, v => .object [(segment, nest rest v)]

theorem get?_nest (path : Path) (v : Value) : path.get? (nest path v) = some v := by
  induction path with
  | nil => rfl
  | cons segment rest ih => simp [nest, get?, step?, Fields.get?, ih]

/-- Only beginnings of the path find something, if the path ends at a value that no step leads on from. -/
theorem get?_nest_eq_none (hbegins : ¬p <+: path) (hend : ∀ segment, step? v segment = none) :
    p.get? (nest path v) = none := by
  induction path generalizing p with
  | nil =>
    cases p with
    | nil => exact absurd List.nil_prefix hbegins
    | cons segment p => rw [nest, get?, hend, Option.bind_none]
  | cons segment rest ih =>
    cases p with
    | nil => exact absurd List.nil_prefix hbegins
    | cons other p =>
      by_cases hsegment : segment = other
      · have hrest : ¬p <+: rest := fun h => hbegins (hsegment ▸ (List.prefix_cons_inj segment).mpr h)
        simp [nest, get?, step?, Fields.get?, hsegment, ih hrest]
      · simp [nest, get?, step?, Fields.get?, hsegment]

end DocQuery.Path
