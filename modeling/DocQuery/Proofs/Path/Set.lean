import DocQuery.Proofs.Fields
import DocQuery.Proofs.Path.Walk

/-! Reading what was written. A write goes through objects like navigation. Where no step of the walk stands on an
    array, the path then finds the value, and paths beside it find what they found before. Into an array a write goes by
    its items and never by a position, so a path that steps to a position does not find what was written at it. -/

namespace DocQuery

open Value

variable {segment other : String} {rest path p q r : Path} {v x : Value} {items : List Value} {doc : Document}

namespace Path

/-! ### One step of a write -/

/-- The object that a value becomes when a path is written into it; a value that is no object is lost. -/
def graft (path : Path) (v x : Value) : Value := .object (path.set v (fieldsOf x))

/-- What stands at the end of a step is changed like this when the rest of the path is written. -/
def put : Path → Value → Value → Value
  | [], v, _ => v
  | segment :: rest, v, .array items => .array (items.map (graft (segment :: rest) v))
  | segment :: rest, v, x => graft (segment :: rest) v x

theorem put_cons (h : x.isArray = false) : put (segment :: rest) v x = graft (segment :: rest) v x := by
  cases x with
  | array => exact Bool.noConfusion h
  | _ => rfl

theorem set_cons (segment : String) (rest : Path) (v : Value) (doc : Document) :
    set (segment :: rest) v doc = doc.insert segment (put rest v ((doc.get? segment).getD .missing)) := by
  cases rest with
  | nil => rfl
  | cons next rest =>
    rw [set]
    split
    · next hget =>
      rw [hget]
      rfl
    · next hget =>
      rw [put_cons, graft]
      cases hchild : doc.get? segment with
      | none => rfl
      | some child =>
        cases child with
        | array items => exact absurd hchild (hget items)
        | _ => rfl

theorem get?_fieldsOf (h : x.isArray = false) : (fieldsOf x).get? segment = step? x segment := by
  cases x with
  | array => exact Bool.noConfusion h
  | _ => rfl

theorem get?_graft_cons : get? (other :: q) (graft (segment :: rest) v x) =
    if segment = other then q.get? (put rest v (((fieldsOf x).get? segment).getD .missing))
    else ((fieldsOf x).get? other).bind q.get? := by
  rw [graft, set_cons, get?, step?, Fields.get?_insert]
  split <;> rfl

/-! ### Where no step stands on an array -/

theorem stations_missing (path : Path) : ∀ s ∈ path.stations .missing, s.isArray = false := by
  cases path with
  | nil => exact List.forall_mem_nil _
  | cons => exact List.forall_mem_singleton.mpr rfl

/-- The rest of a walk that stands on no array, also where it finds nothing to step to. -/
theorem stations_tail (h : ∀ s ∈ stations (segment :: rest) x, s.isArray = false) :
    x.isArray = false ∧ ∀ s ∈ rest.stations ((step? x segment).getD .missing), s.isArray = false := by
  obtain ⟨hx, hrest⟩ := List.forall_mem_cons.mp h
  refine ⟨hx, ?_⟩
  cases hstep : step? x segment with
  | none => exact stations_missing rest
  | some child =>
    rw [hstep] at hrest
    exact hrest

theorem get?_put (h : ∀ s ∈ path.stations x, s.isArray = false) : path.get? (path.put v x) = some v := by
  induction path generalizing x with
  | nil => rfl
  | cons segment rest ih =>
    obtain ⟨hx, hrest⟩ := stations_tail h
    rw [put_cons hx, get?_graft_cons, if_pos rfl, get?_fieldsOf hx]
    exact ih hrest

/-- A path beside the one that is written finds what it found before. -/
theorem get?_put_beside (h : ∀ s ∈ p.stations x, s.isArray = false) (hp : ¬p <+: q) (hq : ¬q <+: p) :
    q.get? (p.put v x) = q.get? x := by
  induction p generalizing q x with
  | nil => exact absurd List.nil_prefix hp
  | cons segment rest ih =>
    cases q with
    | nil => exact absurd List.nil_prefix hq
    | cons other q =>
      obtain ⟨hx, hrest⟩ := stations_tail h
      rw [put_cons hx, get?_graft_cons, get?_fieldsOf hx, get?_fieldsOf hx, get?]
      split
      · next hsegment =>
        subst hsegment
        rw [List.prefix_cons_inj] at hp hq
        rw [ih hrest hp hq]
        cases step? x segment with
        | some child => rfl
        | none =>
          cases q with
          -- The field was not there, and the other path goes on behind it, so it finds nothing before and after.
          | nil => exact absurd List.nil_prefix hq
          | cons => rfl
      · rfl

/-! ### Where a step stands on an array -/

theorem object_fieldsOf {child : Value} (h : (fieldsOf x).get? segment = some child) : .object (fieldsOf x) = x := by
  cases x with
  | object => rfl
  | _ => cases h

theorem exists_array (h : x.isArray = true) : ∃ items, x = .array items := by
  cases x with
  | array items => exact ⟨items, rfl⟩
  | _ => cases h

theorem lt_graft (h : sizeOf v ≤ sizeOf (put rest v (((fieldsOf x).get? segment).getD .missing))) :
    sizeOf v < sizeOf (graft (segment :: rest) v x) := by
  have hfield := List.sizeOf_lt_of_mem (Fields.mem_insert_self (fieldsOf x) segment
    (put rest v (((fieldsOf x).get? segment).getD .missing)))
  rw [graft, set_cons, object.sizeOf_spec]
  rw [Prod.mk.sizeOf_spec] at hfield
  omega

theorem put_eq_or_lt (h : ∀ x, graft (segment :: rest) v x = x ∨ sizeOf v < sizeOf (graft (segment :: rest) v x))
    (x : Value) : put (segment :: rest) v x = x ∨ sizeOf v < sizeOf (put (segment :: rest) v x) := by
  cases hx : x.isArray with
  | false =>
    rw [put_cons hx]
    exact h x
  | true =>
    obtain ⟨items, rfl⟩ := exists_array hx
    -- Either no item changes, or the value is inside of one that does.
    by_cases hsame : ∀ item ∈ items, graft (segment :: rest) v item = item
    · rw [put, List.map_congr_left hsame, List.map_id']
      exact .inl rfl
    · obtain ⟨item, hitem, hchanged⟩ : ∃ item ∈ items, graft (segment :: rest) v item ≠ item := by
        simpa using hsame
      have hlt := (h item).resolve_left hchanged
      have hmem := List.sizeOf_lt_of_mem (List.mem_map_of_mem (f := graft (segment :: rest) v) hitem)
      refine .inr ?_
      rw [put, array.sizeOf_spec]
      omega

/-- What is written is inside of what the value becomes, or there was no place for it and the value stays. -/
theorem graft_eq_or_lt (segment : String) (rest : Path) (x : Value) :
    graft (segment :: rest) v x = x ∨ sizeOf v < sizeOf (graft (segment :: rest) v x) := by
  induction rest generalizing segment x with
  | nil => exact .inr (lt_graft (Nat.le_refl _))
  | cons next rest ih =>
    cases hchild : (fieldsOf x).get? segment with
    | none =>
      refine .inr (lt_graft ?_)
      rw [hchild]
      exact Nat.le_of_lt ((put_eq_or_lt (ih next) .missing).resolve_left nofun)
    | some child =>
      rcases put_eq_or_lt (v := v) (ih next) child with hsame | hlt
      · rw [graft, set_cons, hchild, Option.getD_some, hsame, Fields.insert_of_get? hchild]
        exact .inl (object_fieldsOf hchild)
      · refine .inr (lt_graft ?_)
        rw [hchild]
        exact Nat.le_of_lt hlt

theorem isMissing_put : (put (segment :: rest) v x).isMissing = false := by
  cases x <;> rfl

theorem step?_map {f : Value → Value} :
    step? (.array (items.map f)) segment = (step? (.array items) segment).map f := by
  rw [step?, step?, Option.map_bind]
  exact congrArg _ (funext fun _ => List.getElem?_map)

/-- Into the items of an array goes the whole path that is written, so nothing of it is used up by a position. -/
theorem exists_of_get?_put_array (h : get? (other :: r) (put (segment :: rest) v (.array items)) = some v) :
    ∃ item, step? (.array items) other = some item ∧ r.get? (graft (segment :: rest) v item) = some v := by
  rw [put, get?, step?_map, Option.bind_map] at h
  exact Option.bind_eq_some_iff.mp h

theorem eq_of_get?_nil {y : Value} (hy : y = x ∨ sizeOf v < sizeOf y) (hget : get? [] y = some v) : y = x := by
  refine hy.resolve_right fun hlt => ?_
  rw [Option.some.inj hget] at hlt
  exact Nat.lt_irrefl _ hlt

/-- What a short path finds behind a step into an object, from what the rest of it finds where the step ends. -/
theorem get?_graft_cons_of_short (hlength : (other :: r).length ≤ rest.length)
    (hrest : ∀ next rest x, r.length ≤ rest.length → r.get? (put (next :: rest) v x) = some v →
      x.isMissing = false ∧ r.get? x = some v)
    (hget : get? (other :: r) (graft (segment :: rest) v x) = some v) :
    .object (fieldsOf x) = x ∧ get? (other :: r) x = some v := by
  -- At the segment of the write the hypothesis speaks of what was put there; another segment leads where it led before.
  obtain ⟨child, hchild, hfound⟩ : ∃ child, (fieldsOf x).get? other = some child ∧ r.get? child = some v := by
    rw [get?_graft_cons] at hget
    split at hget
    · next hsegment =>
      subst hsegment
      obtain ⟨next, rest, rfl⟩ := List.exists_cons_of_length_pos (Nat.zero_lt_of_lt hlength)
      obtain ⟨hmissing, hfound⟩ := hrest next rest _ (Nat.le_of_succ_le_succ hlength) hget
      cases hchild : (fieldsOf x).get? segment with
      | none =>
        rw [hchild] at hmissing
        cases hmissing
      | some child =>
        rw [hchild] at hfound
        exact ⟨child, rfl, hfound⟩
    · exact Option.bind_eq_some_iff.mp hget
  have hx := object_fieldsOf hchild
  refine ⟨hx, ?_⟩
  rw [← hx, get?, step?, hchild]
  exact hfound

/-- A path that is too short to end where a write does finds the written value only where it stood before. -/
theorem get?_of_short (r : Path) : (∀ segment rest x, r.length ≤ rest.length →
      r.get? (graft (segment :: rest) v x) = some v → .object (fieldsOf x) = x ∧ r.get? x = some v) ∧
    ∀ segment rest x, r.length ≤ rest.length →
      r.get? (put (segment :: rest) v x) = some v → x.isMissing = false ∧ r.get? x = some v := by
  -- One induction for both: a step into an object leads from `graft` to `put`, a position in an array from `put` to
  -- `graft`.
  induction r with
  | nil =>
    constructor
    all_goals intro segment rest x _ hget
    · have hsame := eq_of_get?_nil (graft_eq_or_lt segment rest x) hget
      rw [hsame] at hget
      exact ⟨hsame ▸ rfl, hget⟩
    · have hsame := eq_of_get?_nil (put_eq_or_lt (graft_eq_or_lt segment rest) x) hget
      rw [hsame] at hget
      exact ⟨hsame ▸ isMissing_put, hget⟩
  | cons other r ih =>
    obtain ⟨ihgraft, ihput⟩ := ih
    refine ⟨fun segment rest x hlength => get?_graft_cons_of_short hlength ihput, fun segment rest x hlength hget => ?_⟩
    cases hx : x.isArray with
    | false =>
      rw [put_cons hx] at hget
      obtain ⟨hobject, hfound⟩ := get?_graft_cons_of_short hlength ihput hget
      exact ⟨hobject ▸ rfl, hfound⟩
    | true =>
      obtain ⟨items, rfl⟩ := exists_array hx
      obtain ⟨item, hstep, hitem⟩ := exists_of_get?_put_array hget
      refine ⟨rfl, ?_⟩
      rw [get?, hstep]
      exact (ihgraft segment rest item (Nat.le_of_succ_le hlength) hitem).2

/-- A write that its path finds goes through no array, or the value was there before. -/
theorem stations_of_get?_put (h : path.get? (path.put v x) = some v) (hbefore : path.get? x ≠ some v) :
    ∀ s ∈ path.stations x, s.isArray = false := by
  induction path generalizing x with
  | nil => exact List.forall_mem_nil _
  | cons segment rest ih =>
    cases hx : x.isArray with
    | false =>
      rw [put_cons hx, get?_graft_cons, if_pos rfl, get?_fieldsOf hx] at h
      refine List.forall_mem_cons.mpr ⟨hx, ?_⟩
      rw [get?] at hbefore
      cases hstep : step? x segment with
      | none => exact List.forall_mem_nil _
      | some child =>
        rw [hstep] at h hbefore
        exact ih h hbefore
    | true =>
      -- The position takes a segment off the path to read, but not off the one to write.
      obtain ⟨items, rfl⟩ := exists_array hx
      obtain ⟨item, hstep, hitem⟩ := exists_of_get?_put_array h
      refine absurd ?_ hbefore
      rw [get?, hstep]
      exact ((get?_of_short rest).1 segment rest item (Nat.le_refl _) hitem).2

/-! ### Documents -/

theorem object_set (hpath : path ≠ []) (v : Value) (doc : Document) :
    .object (path.set v doc) = path.put v (.object doc) := by
  obtain ⟨segment, rest, rfl⟩ := List.exists_cons_of_ne_nil hpath
  rfl

end Path

end DocQuery
