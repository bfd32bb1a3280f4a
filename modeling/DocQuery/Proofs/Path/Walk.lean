import DocQuery.Path

/-! The walk along a path, one step for each segment. What navigation finds is the one candidate that a filter sees,
    even behind positions of an array. Where no step stands on an array, expressions see the same value, too, or all
    three see that nothing is there. -/

namespace DocQuery.Path

variable {segment : String} {rest : Path} {d v child : Value}

/-- The values that the steps of a walk stand on, the first one first. The value at the end is not among them, and a
    walk ends early where it finds nothing to step to. -/
def stations : Path → Value → List Value
  | [], _ => []
  | segment :: rest, v => v :: match step? v segment with
    | some child => stations rest child
    | none => []

/-! ### One step -/

/-- Filters step like navigation where navigation can step, to a position in an array as well. -/
theorem candidates_of_step (h : step? d segment = some child) :
    candidates (segment :: rest) d = candidates rest child := by
  cases d with
  | object fields =>
    rw [step?] at h
    rw [candidates, h]
  | array items =>
    obtain ⟨i, hindex, hitem⟩ := Option.bind_eq_some_iff.mp h
    rw [candidates, hindex]
    simp only [hitem]
  | _ => exact nomatch h

/-- Where navigation cannot step there is no candidate, unless the rest of the path spreads over an array. -/
theorem candidates_cons (h : d.isArray = false) :
    candidates (segment :: rest) d = match step? d segment with
      | some child => candidates rest child
      | none => [] := by
  cases d with
  | array => exact Bool.noConfusion h
  | _ => rfl

theorem resolve_cons (h : d.isArray = false) :
    resolve (segment :: rest) d = match step? d segment with
      | some child => resolve rest child
      | none => .missing := by
  cases d with
  | array => exact Bool.noConfusion h
  | _ => rfl

/-! ### The whole walk -/

theorem candidates_of_get? : ∀ {path : Path} {d : Value}, path.get? d = some v → path.candidates d = [v]
  | [], d, h => by rw [candidates, Option.some.inj h]
  | segment :: rest, d, h => by
    obtain ⟨child, hstep, hget⟩ := Option.bind_eq_some_iff.mp h
    rw [candidates_of_step hstep, candidates_of_get? hget]

theorem candidates_eq_toList : ∀ {path : Path} {d : Value}, (∀ s ∈ path.stations d, s.isArray = false) →
    path.candidates d = (path.get? d).toList
  | [], _, _ => rfl
  | segment :: rest, d, h => by
    obtain ⟨hd, hrest⟩ := List.forall_mem_cons.mp h
    rw [candidates_cons hd, get?]
    cases hstep : step? d segment with
    | none => rfl
    | some child =>
      rw [hstep] at hrest
      exact candidates_eq_toList hrest

theorem resolve_eq_getD : ∀ {path : Path} {d : Value}, (∀ s ∈ path.stations d, s.isArray = false) →
    path.resolve d = (path.get? d).getD .missing
  | [], _, _ => rfl
  | segment :: rest, d, h => by
    obtain ⟨hd, hrest⟩ := List.forall_mem_cons.mp h
    rw [resolve_cons hd, get?]
    cases hstep : step? d segment with
    | none => rfl
    | some child =>
      rw [hstep] at hrest
      exact resolve_eq_getD hrest

/-- Where navigation finds a value, it is the one candidate of filters. Where no step of the walk stands on an array,
    there is at most one candidate, and navigation, filters and expressions find the same value or nothing. -/
theorem readers_agree (path : Path) (d : Value) :
    (∀ v, path.get? d = some v → path.candidates d = [v]) ∧
      ((∀ s ∈ path.stations d, s.isArray = false) →
        (path.candidates d).length ≤ 1 ∧ path.candidates d = (path.get? d).toList ∧
          path.resolve d = (path.get? d).getD .missing) := by
  refine ⟨fun v h => candidates_of_get? h, fun h => ⟨?_, candidates_eq_toList h, resolve_eq_getD h⟩⟩
  rw [candidates_eq_toList h]
  exact Option.length_toList_le

/-- The second item of an array, and a field that is not there. -/
theorem readers_agree_on_cart :
    let cart := Value.object [("items", .array [.null, .object [("price", .int 3)]]), ("owner", .object [])]
    let price := ofString "items.1.price"
    let name := ofString "owner.name"
    (price.get? cart = some (.int 3) ∧ price.candidates cart = [.int 3]) ∧
      (∀ s ∈ name.stations cart, s.isArray = false) ∧
        name.candidates cart = (name.get? cart).toList ∧ name.resolve cart = (name.get? cart).getD .missing := by
  intro cart price name
  have hprice : price.get? cart = some (.int 3) := rfl
  have hname : ∀ s ∈ name.stations cart, s.isArray = false := by decide
  exact ⟨⟨hprice, (readers_agree price cart).1 _ hprice⟩, hname, ((readers_agree name cart).2 hname).2⟩

end DocQuery.Path
