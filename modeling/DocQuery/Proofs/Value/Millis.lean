import DocQuery.Proofs.Value.Order

/-! Dates to the millisecond. Two instants are taken to the same one iff they have the same milliseconds,
    and values are alike if they are equal once all dates inside them are taken to the millisecond. -/

namespace DocQuery

namespace Instant

/-- The instant without what lies below its milliseconds. -/
def cut (t : Instant) : Instant where
  seconds := t.seconds
  nanos := t.nanos / 1000000 * 1000000
  inRange := t.inRange
  nanos_lt := Nat.lt_of_le_of_lt (Nat.div_mul_le_self ..) t.nanos_lt

/-- The instant of its own milliseconds. Behind the last second there is none, so a leap second there is
    only cut. -/
def atMillis (t : Instant) : Instant := (ofMillis? t.millis).getD t.cut

variable {t u : Instant} {n : Int}

theorem ofParts?_eq_some {seconds : Int} {nanos : Nat} (h : ofParts? seconds nanos = some t) :
    t.seconds = seconds ∧ t.nanos = nanos := by
  unfold ofParts? at h
  split_ifs at h
  obtain rfl := Option.some.inj h
  exact ⟨rfl, rfl⟩

theorem millis_ofMillis? (h : ofMillis? n = some t) : t.millis = n := by
  obtain ⟨hs, hn⟩ := ofParts?_eq_some h
  rw [millis, hs, hn]
  omega

/-- Only a leap second in the last second of all has milliseconds of no instant. -/
theorem seconds_of_ofMillis?_eq_none (h : ofMillis? t.millis = none) : t.seconds = maxSecond := by
  obtain ⟨seconds, nanos, hr, hn⟩ := t
  unfold ofMillis? ofParts? at h
  split_ifs at h with hrange
  unfold millis billion at *
  simp only at hrange ⊢
  omega

theorem millis_cut (t : Instant) : t.cut.millis = t.millis := by
  have hnanos : t.nanos / 1000000 * 1000000 / 1000000 = t.nanos / 1000000 := Nat.mul_div_cancel _ (by decide)
  simp only [millis, cut]
  omega

theorem millis_atMillis (t : Instant) : t.atMillis.millis = t.millis := by
  unfold atMillis
  cases h : ofMillis? t.millis with
  | some u => exact millis_ofMillis? h
  | none => exact millis_cut t

theorem atMillis_inj : t.atMillis = u.atMillis ↔ t.millis = u.millis := by
  refine ⟨fun h => by rw [← millis_atMillis t, h, millis_atMillis], fun h => ?_⟩
  unfold atMillis
  rw [h]
  cases hu : ofMillis? u.millis with
  | some v => rfl
  | none =>
    -- Where the milliseconds name no instant both instants lie in the last second.
    have hsecond := (seconds_of_ofMillis?_eq_none (h ▸ hu)).trans (seconds_of_ofMillis?_eq_none hu).symm
    have hnanos : t.nanos / 1000000 = u.nanos / 1000000 := by
      unfold millis at h
      omega
    simp only [Option.getD_none, cut, hsecond, hnanos]

theorem compare_eq_eq : compare t u = .eq ↔ t = u := Std.LawfulEqCmp.compare_eq_iff_eq

end Instant

namespace Value

variable {v w u : Value} {xs ys : List Value} {fs gs : List (String × Value)}

mutual

/-- Every date inside is replaced by the instant of its own milliseconds. -/
def toMillis : Value → Value
  | date t => date t.atMillis
  | array items => array (itemsToMillis items)
  | object fields => object (fieldsToMillis fields)
  | v => v

def itemsToMillis : List Value → List Value
  | [] => []
  | item :: rest => toMillis item :: itemsToMillis rest

def fieldsToMillis : List (String × Value) → List (String × Value)
  | [] => []
  | (name, value) :: rest => (name, toMillis value) :: fieldsToMillis rest

end

theorem itemsToMillis_eq : ∀ items, itemsToMillis items = items.map toMillis
  | [] => rfl
  | item :: rest => by rw [itemsToMillis, itemsToMillis_eq rest, List.map_cons]

theorem fieldsToMillis_eq : ∀ fields, fieldsToMillis fields = fields.map fun f => (f.1, f.2.toMillis)
  | [] => rfl
  | (name, value) :: rest => by rw [fieldsToMillis, fieldsToMillis_eq rest, List.map_cons]

/-- The values are equal to the millisecond. -/
def Alike (v w : Value) : Prop := v.toMillis.compare w.toMillis = .eq

theorem rank_toMillis (v : Value) : v.toMillis.rank = v.rank := by
  cases v <;> simp [toMillis, rank]

theorem worth?_toMillis (v : Value) : v.toMillis.worth? = v.worth? := by
  cases v <;> simp [toMillis, worth?]

theorem rank_of_compare_eq (h : v.compare w = .eq) : v.rank = w.rank := by
  by_contra hne
  rw [compare_of_rank_ne hne, Nat.compare_eq_eq] at h
  exact hne h

/-! ### Equality by kind -/

theorem compare_eq_eq_of_worth {a b : Worth} (hv : v.worth? = some a) (hw : w.worth? = some b) :
    v.compare w = .eq ↔ a = b := by
  rw [compare_of_worth hv hw]
  exact Std.LawfulEqCmp.compare_eq_iff_eq

theorem compare_array : (array xs).compare (array ys) = .eq ↔ List.Forall₂ (fun v w => v.compare w = .eq) xs ys := by
  rw [compare, compareItems_eq, compareLex_eq_eq]

theorem compare_object : (object fs).compare (object gs) = .eq ↔
    List.Forall₂ (fun f g => f.1 = g.1 ∧ f.2.compare g.2 = .eq) fs gs := by
  rw [compare, compareFields_eq, compareLex_eq_eq]
  simp only [compareField, Ordering.then_eq_eq, Std.LawfulEqOrd.compare_eq_iff_eq]

namespace Alike

theorem rank_eq (h : Alike v w) : v.rank = w.rank := by
  rw [← rank_toMillis v, ← rank_toMillis w]
  exact rank_of_compare_eq h

theorem number {a b : Worth} (hv : v.worth? = some a) (hw : w.worth? = some b) : Alike v w ↔ a = b :=
  compare_eq_eq_of_worth ((worth?_toMillis v).trans hv) ((worth?_toMillis w).trans hw)

theorem string {s t : String} : Alike (.string s) (.string t) ↔ s = t := by
  simp [Alike, toMillis, compare]

theorem bool {b c : Bool} : Alike (.bool b) (.bool c) ↔ b = c := by
  simp [Alike, toMillis, compare]

theorem date {t u : Instant} : Alike (.date t) (.date u) ↔ t.millis = u.millis := by
  rw [← Instant.atMillis_inj, ← Instant.compare_eq_eq]
  simp [Alike, toMillis, compare]

theorem array : Alike (.array xs) (.array ys) ↔ List.Forall₂ Alike xs ys := by
  rw [Alike, toMillis, toMillis, compare_array, itemsToMillis_eq, itemsToMillis_eq, List.forall₂_map_left_iff,
    List.forall₂_map_right_iff]
  rfl

theorem object : Alike (.object fs) (.object gs) ↔ List.Forall₂ (fun f g => f.1 = g.1 ∧ Alike f.2 g.2) fs gs := by
  rw [Alike, toMillis, toMillis, compare_object, fieldsToMillis_eq, fieldsToMillis_eq, List.forall₂_map_left_iff,
    List.forall₂_map_right_iff]
  rfl

/-- Equal values are equal to the millisecond. -/
theorem of_compare_eq (h : v.compare w = .eq) : Alike v w := by
  have hrank := rank_of_compare_eq h
  induction v generalizing w with
  | missing | null => cases w <;> cases hrank <;> rfl
  | int _ | double _ =>
    obtain ⟨b, hb⟩ := exists_worth (v := w) hrank.symm
    exact (Alike.number rfl hb).mpr ((compare_eq_eq_of_worth rfl hb).mp h)
  | bool b =>
    cases w <;> cases hrank
    exact Alike.bool.mpr (Std.LawfulEqOrd.eq_of_compare h)
  | string s =>
    cases w <;> cases hrank
    exact Alike.string.mpr (Std.LawfulEqOrd.eq_of_compare h)
  | date t =>
    cases w <;> cases hrank
    exact Alike.date.mpr (congrArg Instant.millis (Instant.compare_eq_eq.mp h))
  | array items ih =>
    cases w <;> cases hrank
    -- The items are compared pairwise, so that the hypothesis of each meets its partner.
    refine Alike.array.mpr (((List.forall₂_and_left _ _).mpr ⟨ih, compare_array.mp h⟩).imp fun v w hvw => ?_)
    exact hvw.1 hvw.2 (rank_of_compare_eq hvw.2)
  | object fields ih =>
    cases w <;> cases hrank
    refine Alike.object.mpr (((List.forall₂_and_left _ _).mpr ⟨ih, compare_object.mp h⟩).imp fun f g hfg => ?_)
    exact ⟨hfg.2.1, hfg.1 hfg.2.2 (rank_of_compare_eq hfg.2.2)⟩

end Alike

end Value

end DocQuery
