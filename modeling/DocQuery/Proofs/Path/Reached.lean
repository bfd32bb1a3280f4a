import DocQuery.Proofs.Path.Set
import DocQuery.Proofs.Value.WellFormed

/-! What a writer comes to on its way along a path: it enters objects by their fields and arrays by their items, and
    takes no segment for a position. Expressions go the same way, but into the arrays among the items, too. -/

namespace DocQuery

open Value

variable {segment other : String} {rest p q r : Path} {v x y : Value} {items : List Value}

/-! ### Beginnings of paths -/

namespace Path

/-- The first path ends on the way along the second one, before its end. -/
def Before (p q : Path) : Prop := p <+: q ∧ p ≠ q

theorem not_before_nil : ¬Before p [] := fun h => h.2 (List.prefix_nil.mp h.1)

theorem nil_before_cons : Before [] (segment :: rest) := ⟨List.nil_prefix, (List.cons_ne_nil _ _).symm⟩

theorem cons_before_cons : Before (segment :: p) (other :: q) ↔ segment = other ∧ Before p q := by
  unfold Before
  rw [List.cons_prefix_cons, ne_eq, ne_eq, List.cons.injEq]
  tauto

variable {P : Path → Prop}

theorem exists_before_cons : (∃ r, Before r (segment :: p) ∧ P r) ↔ P [] ∨ ∃ r, Before r p ∧ P (segment :: r) := by
  constructor
  · rintro ⟨r, hr, h⟩
    cases r with
    | nil => exact .inl h
    | cons first r =>
      obtain ⟨rfl, hrest⟩ := cons_before_cons.mp hr
      exact .inr ⟨r, hrest, h⟩
  · rintro (h | ⟨r, hr, h⟩)
    · exact ⟨[], nil_before_cons, h⟩
    · exact ⟨segment :: r, cons_before_cons.mpr ⟨rfl, hr⟩, h⟩

theorem forall_before_cons : (∀ r, Before r (segment :: p) → P r) ↔ P [] ∧ ∀ r, Before r p → P (segment :: r) := by
  constructor
  · exact fun h => ⟨h [] nil_before_cons, fun r hr => h _ (cons_before_cons.mpr ⟨rfl, hr⟩)⟩
  · rintro ⟨hnil, hcons⟩ r hr
    cases r with
    | nil => exact hnil
    | cons first r =>
      obtain ⟨rfl, hrest⟩ := cons_before_cons.mp hr
      exact hcons r hrest

/-- Beginnings that two paths have in common. -/
theorem forall_common_cons : (∀ r, r <+: segment :: p → r <+: other :: q → P r) ↔
    P [] ∧ (segment = other → ∀ r, r <+: p → r <+: q → P (segment :: r)) := by
  constructor
  · intro h
    refine ⟨h [] List.nil_prefix List.nil_prefix, ?_⟩
    rintro rfl r hp hq
    exact h (segment :: r) ((List.prefix_cons_inj _).mpr hp) ((List.prefix_cons_inj _).mpr hq)
  · rintro ⟨hnil, hcons⟩ r hp hq
    cases r with
    | nil => exact hnil
    | cons first r =>
      obtain ⟨rfl, hrp⟩ := List.cons_prefix_cons.mp hp
      obtain ⟨rfl, hrq⟩ := List.cons_prefix_cons.mp hq
      exact hcons rfl r hrp hrq

/-- Beginnings of the second path that go on from the end of the first one. -/
theorem forall_between_cons : (∀ r, segment :: p <+: r → Before r (other :: q) → P r) ↔
    (segment = other → ∀ r, p <+: r → Before r q → P (other :: r)) := by
  constructor
  · rintro h rfl r hp hq
    exact h (segment :: r) ((List.prefix_cons_inj _).mpr hp) (cons_before_cons.mpr ⟨rfl, hq⟩)
  · intro h r hp hq
    cases r with
    | nil => exact absurd (List.prefix_nil.mp hp) (List.cons_ne_nil _ _)
    | cons first r =>
      obtain ⟨rfl, hpr⟩ := List.cons_prefix_cons.mp hp
      obtain ⟨rfl, hrq⟩ := cons_before_cons.mp hq
      exact h rfl r hpr hrq

/-! ### One step -/

/-- The value of a field; missing if the value has no such field. -/
def fieldOf (segment : String) (x : Value) : Value := ((fieldsOf x).get? segment).getD .missing

/-- What is under a field, of the value itself or of each of the items if it is an array. -/
def under (segment : String) : Value → List Value
  | .array items => items.map (fieldOf segment)
  | x => [fieldOf segment x]

theorem under_of_not_array (h : x.isArray = false) : under segment x = [fieldOf segment x] := by
  cases x with
  | array => exact Bool.noConfusion h
  | _ => rfl

theorem fieldOf_insert (fields : Document) (segment other : String) (v : Value) :
    fieldOf other (.object (fields.insert segment v)) =
      if segment = other then v else fieldOf other (.object fields) := by
  rw [fieldOf, fieldsOf, Fields.get?_insert]
  split <;> rfl

theorem fieldOf_of_get? {fields : Document} (h : fields.get? segment = some v) :
    fieldOf segment (.object fields) = v := by
  rw [fieldOf, fieldsOf, h, Option.getD_some]

theorem fieldOf_of_get?_none {fields : Document} (h : fields.get? segment = none) :
    fieldOf segment (.object fields) = .missing := by
  rw [fieldOf, fieldsOf, h, Option.getD_none]

/-! ### The whole way -/

/-- The values that a writer comes to at the end of a path. Where there is nothing it comes to a missing value. -/
def reached : Path → Value → List Value
  | [], x => [x]
  | segment :: rest, x => (under segment x).flatMap (reached rest)

theorem mem_reached_cons : y ∈ reached (segment :: rest) x ↔ ∃ child ∈ under segment x, y ∈ rest.reached child :=
  List.mem_flatMap

theorem mem_reached_cons_of_not_array (h : x.isArray = false) :
    y ∈ reached (segment :: rest) x ↔ y ∈ rest.reached (fieldOf segment x) := by
  rw [mem_reached_cons, under_of_not_array h]
  simp only [List.mem_singleton, exists_eq_left]

theorem reached_missing (path : Path) : path.reached .missing = [.missing] := by
  induction path with
  | nil => rfl
  | cons segment rest ih => exact (List.flatMap_singleton _ _).trans ih

/-- The items of all arrays that a writer comes to at the end of the path are among `P`. -/
def ItemsAmong (P : Value → Prop) (path : Path) (x : Value) : Prop :=
  ∀ items, .array items ∈ path.reached x → ∀ item ∈ items, P item

section ItemsAmong

variable {P : Value → Prop}

theorem itemsAmong_array : ItemsAmong P [] (.array items) ↔ ∀ item ∈ items, P item := by
  constructor
  · exact fun h => h items (List.mem_singleton_self _)
  · intro h more hmore
    exact array.inj (List.mem_singleton.mp hmore) ▸ h

theorem itemsAmong_of_not_array (h : x.isArray = false) : ItemsAmong P [] x := by
  intro items hitems
  rw [← List.mem_singleton.mp hitems] at h
  exact Bool.noConfusion h

theorem itemsAmong_cons : ItemsAmong P (segment :: rest) x ↔ ∀ child ∈ under segment x, ItemsAmong P rest child := by
  constructor
  · exact fun h child hchild items hitems => h items (mem_reached_cons.mpr ⟨child, hchild, hitems⟩)
  · intro h items hitems
    obtain ⟨child, hchild, hitems⟩ := mem_reached_cons.mp hitems
    exact h child hchild items hitems

theorem itemsAmong_cons_of_not_array (h : x.isArray = false) :
    ItemsAmong P (segment :: rest) x ↔ ItemsAmong P rest (fieldOf segment x) := by
  rw [itemsAmong_cons, under_of_not_array h, List.forall_mem_singleton]

theorem itemsAmong_cons_object (fields : Document) :
    ItemsAmong P (segment :: rest) (.object fields) ↔ ItemsAmong P rest (fieldOf segment (.object fields)) :=
  itemsAmong_cons_of_not_array rfl

theorem itemsAmong_cons_array :
    ItemsAmong P (segment :: rest) (.array items) ↔ ∀ item ∈ items, ItemsAmong P rest (fieldOf segment item) :=
  itemsAmong_cons.trans List.forall_mem_map

theorem itemsAmong_missing (path : Path) : ItemsAmong P path .missing := by
  intro items hitems
  rw [reached_missing] at hitems
  exact nomatch List.mem_singleton.mp hitems

end ItemsAmong

/-! ### What an expression sees -/

theorem resolve_missing (path : Path) : path.resolve .missing = .missing := by
  cases path <;> rfl

theorem resolve_of_not_array (h : x.isArray = false) :
    resolve (segment :: rest) x = rest.resolve (fieldOf segment x) := by
  rw [resolve_cons h, fieldOf, get?_fieldsOf h]
  cases step? x segment with
  | none => exact (resolve_missing rest).symm
  | some child => rfl

/-- What is found in the items, without the items in which nothing is found. -/
def found {α : Type} (f : α → Value) (items : List α) : List Value := (items.map f).filter (!·.isMissing)

theorem resolve_array : resolve (segment :: rest) (.array items) = .array (found (resolve (segment :: rest)) items) :=
  congrArg Value.array (descendItems_eq segment rest.resolve items)

theorem ne_missing_resolve_array : resolve (segment :: rest) (.array items) ≠ .missing := by
  rw [resolve_array]
  exact nofun

theorem not_array_of_resolve (h : resolve (segment :: rest) x = .missing) : x.isArray = false := by
  cases x with
  | array => exact absurd h ne_missing_resolve_array
  | _ => rfl

section Found

variable {α β : Type} {f g : α → Value} {item : α} {items : List α}

theorem found_map (f : β → Value) (g : α → β) (items : List α) : found f (items.map g) = found (f ∘ g) items := by
  rw [found, List.map_map, found]

theorem found_congr (h : ∀ item ∈ items, f item = g item) : found f items = found g items := by
  rw [found, List.map_congr_left h, found]

theorem found_cons_of_missing (h : f item = .missing) : found f (item :: items) = found f items := by
  rw [found, List.map_cons, h]
  rfl

theorem found_cons_of_ne (h : f item ≠ .missing) : found f (item :: items) = f item :: found f items := by
  rw [found, List.map_cons, List.filter_cons_of_pos, found]
  generalize f item = y at h
  cases y with
  | missing => exact absurd rfl h
  | _ => rfl

theorem found_filterMap (f : β → Value) (g : α → Option β) (items : List α) :
    found f (items.filterMap g) = found (fun item => (g item).elim .missing f) items := by
  induction items with
  | nil => rfl
  | cons item rest ih =>
    cases h : g item with
    | none =>
      rw [List.filterMap_cons_none h, ih, found_cons_of_missing]
      rw [h, Option.elim_none]
    | some b =>
      rw [List.filterMap_cons_some h]
      by_cases hb : f b = .missing
      · rw [found_cons_of_missing hb, ih, found_cons_of_missing]
        rw [h, Option.elim_some, hb]
      · rw [found_cons_of_ne hb, ih, found_cons_of_ne] <;> rw [h, Option.elim_some]
        exact hb

theorem length_found_le (h : ∀ item ∈ items, g item = .missing → f item = .missing) :
    (found f items).length ≤ (found g items).length := by
  induction items with
  | nil => exact Nat.le_refl _
  | cons item rest ih =>
    obtain ⟨hitem, hrest⟩ := List.forall_mem_cons.mp h
    have hle := ih hrest
    by_cases hg : g item = .missing
    · rw [found_cons_of_missing hg, found_cons_of_missing (hitem hg)]
      exact hle
    · rw [found_cons_of_ne hg, List.length_cons]
      by_cases hf : f item = .missing
      · rw [found_cons_of_missing hf]
        exact Nat.le_succ_of_le hle
      · rw [found_cons_of_ne hf, List.length_cons]
        exact Nat.succ_le_succ hle

/-- Where nothing is found that was not found before, as much is found only if the same is found in each item. -/
theorem found_eq_iff (h : ∀ item ∈ items, g item = .missing → f item = .missing) :
    found f items = found g items ↔ ∀ item ∈ items, f item = g item := by
  induction items with
  | nil => exact iff_of_true rfl (List.forall_mem_nil _)
  | cons item rest ih =>
    obtain ⟨hitem, hrest⟩ := List.forall_mem_cons.mp h
    rw [List.forall_mem_cons, ← ih hrest]
    by_cases hg : g item = .missing
    · rw [found_cons_of_missing hg, found_cons_of_missing (hitem hg), hg, hitem hg]
      exact (and_iff_right rfl).symm
    · rw [found_cons_of_ne hg]
      by_cases hf : f item = .missing
      · -- Too little is left to find.
        have hle := length_found_le hrest
        rw [found_cons_of_missing hf]
        refine iff_of_false (fun hsame => ?_) fun hsame => hg (hsame.1.symm.trans hf)
        rw [hsame, List.length_cons] at hle
        omega
      · rw [found_cons_of_ne hf, List.cons.injEq]

end Found

end Path

end DocQuery
