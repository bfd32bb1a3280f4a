import DocQuery.Proofs.Stage.Group
import DocQuery.Proofs.Value.Key

/-! What makes values the same to groups and sets. Both go by keys, which take dates to the millisecond, so
    they go by equality iff no two of the values become equal only to the millisecond. -/

namespace DocQuery

open Checked

namespace Value

variable {v w : Value} {values : List Value}

/-- Equality once all dates are taken to the millisecond. -/
def equalToMillis (v w : Value) : Bool := v.toMillis.equal w.toMillis

/-- No two of the values are equal only to the millisecond. -/
def MillisSuffice (values : List Value) : Prop := ∀ v ∈ values, ∀ w ∈ values, v.equalToMillis w → v.equal w

theorem equalToMillis_iff : v.equalToMillis w ↔ v.key = w.key := equal_iff.trans key_eq_iff_alike.symm

theorem equalToMillis_of_equal (h : v.equal w) : v.equalToMillis w :=
  equal_iff.mpr (Alike.of_compare_eq (equal_iff.mp h))

end Value

/-! ### Groups -/

namespace Grouping

variable {g : Grouping} {limit : Option Nat} {groups groups' final : List Group} {docs out : List Value}
  {d id : Value} {placed : List (Value × Nat)}

/-- The `_id` value of each document and the place of the group that takes it, while groups are added. -/
def placements (g : Grouping) (limit : Option Nat) : List Group → List Value → Checked (List (Value × Nat))
  | _, [] => .ok []
  | groups, doc :: rest => do
    let id ← g.idOf doc
    let place := (groups.map Group.key).idxOf id.key
    return (id, place) :: (← g.placements limit (← g.add limit groups doc) rest)

/-- Documents share a group iff their `_id` values are the same. -/
def GroupedBy (same : Value → Value → Bool) (placed : List (Value × Nat)) : Prop :=
  ∀ p ∈ placed, ∀ q ∈ placed, p.2 = q.2 ↔ same p.1 q.1

/-- The group that takes a document stays where it is. -/
theorem Step.idxOf_eq (h : g.Step groups d id groups') :
    id.key ∈ groups'.map Group.key ∧
      (groups'.map Group.key).idxOf id.key = (groups.map Group.key).idxOf id.key := by
  rw [h.keys_eq]
  split
  · next hmem => exact ⟨by simpa using hmem, by rw [List.append_nil]⟩
  · next hnew => exact ⟨by simp, by rw [List.idxOf_append_of_notMem hnew, List.idxOf_eq_length hnew]; simp⟩

theorem exists_ids_placements (h : docs.foldlM (g.add limit) groups = .ok final) :
    groups.map Group.key <+: final.map Group.key ∧
      ∃ ids, docs.mapM g.idOf = .ok ids ∧ (∀ id ∈ ids, id.key ∈ final.map Group.key) ∧
        g.placements limit groups docs = .ok (ids.map fun id => (id, (final.map Group.key).idxOf id.key)) := by
  induction docs generalizing groups with
  | nil =>
    cases h
    exact ⟨List.prefix_rfl, [], rfl, fun _ h => (nomatch h), rfl⟩
  | cons d docs ih =>
    rw [List.foldlM_cons] at h
    obtain ⟨groups', hadd, hrest⟩ := bind_eq_ok.mp h
    obtain ⟨id, hid, hstep⟩ := step_of_add hadd
    obtain ⟨hmem, hplace⟩ := hstep.idxOf_eq
    obtain ⟨hbegins, ids, hids, hkeys, hplaced⟩ := ih hrest
    -- Keys only join at the end, so a place is the same in all later groups.
    have hfinal : (final.map Group.key).idxOf id.key = (groups.map Group.key).idxOf id.key := by
      obtain ⟨more, hmore⟩ := hbegins
      rw [← hmore, List.idxOf_append_of_mem hmem, hplace]
    refine ⟨?_, id :: ids, ?_, List.forall_mem_cons.mpr ⟨hbegins.subset hmem, hkeys⟩, ?_⟩
    · rw [hstep.keys_eq] at hbegins
      exact (List.prefix_append _ _).trans hbegins
    · rw [List.mapM_cons, hid, hids]
      rfl
    · rw [placements, hid, List.map_cons, hfinal]
      simp only [bind, Except.bind, hadd, hplaced]
      rfl

/-- Documents share a group iff their `_id` values are equal to the millisecond. -/
theorem exists_placements (h : g.applyTo limit docs = .ok out) : ∃ placed, g.placements limit [] docs = .ok placed ∧
    docs.mapM g.idOf = .ok (placed.map Prod.fst) ∧ (∀ p ∈ placed, p.2 < out.length) ∧
      GroupedBy Value.equalToMillis placed := by
  obtain ⟨final, hfinal, hout⟩ := bind_eq_ok.mp h
  cases hout
  obtain ⟨-, ids, hids, hkeys, hplaced⟩ := exists_ids_placements hfinal
  refine ⟨_, hplaced, ?_, ?_, ?_⟩
  · rw [List.map_map, hids]
    exact congrArg Except.ok (List.map_id ids).symm
  · intro p hp
    obtain ⟨id, hid, rfl⟩ := List.mem_map.mp hp
    rw [List.length_map, ← List.length_map (f := Group.key)]
    exact List.idxOf_lt_length_of_mem (hkeys id hid)
  · intro p hp q hq
    obtain ⟨id, hid, rfl⟩ := List.mem_map.mp hp
    obtain ⟨id', -, rfl⟩ := List.mem_map.mp hq
    exact (List.idxOf_inj (hkeys id hid)).trans Value.equalToMillis_iff.symm

theorem groupedBy_equal_iff (h : GroupedBy Value.equalToMillis placed) :
    GroupedBy Value.equal placed ↔ Value.MillisSuffice (placed.map Prod.fst) := by
  simp only [GroupedBy, Value.MillisSuffice, List.forall_mem_map]
  constructor
  · exact fun hequal p hp q hq hmillis => (hequal p hp q hq).mp ((h p hp q hq).mpr hmillis)
  · exact fun hmillis p hp q hq => (h p hp q hq).trans ⟨hmillis p hp q hq, Value.equalToMillis_of_equal⟩

end Grouping

/-! ### Sets -/

namespace Accumulator

variable {values : List Value} {seen : List String} {items : Array Value} {v : Value}

/-- No two elements are the same, and for each value that is not missing there is one that is the same. -/
def CollectedBy (same : Value → Value → Bool) (values items : List Value) : Prop :=
  items.Pairwise (fun v w => ¬same v w) ∧ ∀ v ∈ values, v.isMissing = false → ∃ w ∈ items, same v w

/-- A set after these values: its elements have the keys that have been seen, each only once. -/
structure SetOf (values : List Value) (seen : List String) (items : Array Value) : Prop where
  seen_eq : seen = (items.toList.map Value.key).reverse
  keys_nodup : (items.toList.map Value.key).Nodup
  mem_values : ∀ w ∈ items.toList, w ∈ values ∧ w.isMissing = false
  key_mem : ∀ v ∈ values, v.isMissing = false → v.key ∈ seen

theorem SetOf.add (h : SetOf values seen items) (v : Value) : ∃ seen' items',
    Accumulator.add (.addToSet seen items) v = .ok (.addToSet seen' items') ∧
      SetOf (values ++ [v]) seen' items' := by
  have hmem : ∀ w ∈ items.toList, w ∈ values ++ [v] ∧ w.isMissing = false := fun w hw =>
    (h.mem_values w hw).imp (List.mem_append_left _) id
  unfold Accumulator.add
  dsimp only
  split
  · next hskip =>
    refine ⟨seen, items, rfl, h.seen_eq, h.keys_nodup, hmem, fun w hw hpresent => ?_⟩
    rcases List.mem_append.mp hw with hold | hlast
    · exact h.key_mem w hold hpresent
    · obtain rfl := List.mem_singleton.mp hlast
      simpa [hpresent] using hskip
  · next hnew =>
    obtain ⟨hpresent, hunseen⟩ : v.isMissing = false ∧ v.key ∉ seen := by simpa using hnew
    -- The key goes in front of the seen ones and the value behind the elements, so both lists stay in step.
    refine ⟨v.key :: seen, items.push v, rfl, ?_, ?_, ?_, ?_⟩
    · rw [Array.toList_push, List.map_append, List.reverse_append, h.seen_eq]
      rfl
    · rw [h.seen_eq, List.mem_reverse] at hunseen
      rw [Array.toList_push, List.map_append, List.nodup_append_comm]
      exact List.nodup_cons.mpr ⟨hunseen, h.keys_nodup⟩
    · intro w hw
      rw [Array.toList_push] at hw
      rcases List.mem_append.mp hw with hold | hlast
      · exact hmem w hold
      · obtain rfl := List.mem_singleton.mp hlast
        exact ⟨by simp, hpresent⟩
    · intro w hw hpresent'
      rcases List.mem_append.mp hw with hold | hlast
      · exact List.mem_cons_of_mem _ (h.key_mem w hold hpresent')
      · obtain rfl := List.mem_singleton.mp hlast
        exact List.mem_cons_self

theorem exists_setOf (values : List Value) : ∃ seen items,
    values.foldlM Accumulator.add (.addToSet [] #[]) = .ok (.addToSet seen items) ∧ SetOf values seen items := by
  induction values using List.reverseRecOn with
  | nil => exact ⟨[], #[], rfl, rfl, List.nodup_nil, fun _ h => (nomatch h), fun _ h => (nomatch h)⟩
  | append_singleton values v ih =>
    obtain ⟨seen, items, hrun, hset⟩ := ih
    obtain ⟨seen', items', hadd, hset'⟩ := hset.add v
    exact ⟨seen', items', by rw [foldlM_concat, hrun]; exact hadd, hset'⟩

theorem SetOf.collectedBy (h : SetOf values seen items) : CollectedBy Value.equalToMillis values items.toList := by
  have hpairwise := List.pairwise_map.mp h.keys_nodup
  refine ⟨hpairwise.imp fun hne => Value.equalToMillis_iff.not.mpr hne, fun v hv hpresent => ?_⟩
  have hseen := h.key_mem v hv hpresent
  rw [h.seen_eq, List.mem_reverse] at hseen
  obtain ⟨w, hw, hkey⟩ := List.mem_map.mp hseen
  exact ⟨w, hw, Value.equalToMillis_iff.mpr hkey.symm⟩

theorem SetOf.collectedBy_equal_iff (h : SetOf values seen items) :
    CollectedBy Value.equal values items.toList ↔ Value.MillisSuffice (values.filter fun v => !v.isMissing) := by
  have hfilter : ∀ {v}, v ∈ values.filter (fun v => !v.isMissing) ↔ v ∈ values ∧ v.isMissing = false := by simp
  constructor
  · intro hcollected v hv w hw hmillis
    obtain ⟨x, hx, hvx⟩ := hcollected.2 v (hfilter.mp hv).1 (hfilter.mp hv).2
    obtain ⟨y, hy, hwy⟩ := hcollected.2 w (hfilter.mp hw).1 (hfilter.mp hw).2
    -- Both are equal to the one element that has their key.
    have hkey : x.key = y.key := by
      rw [← Value.equalToMillis_iff.mp (Value.equalToMillis_of_equal hvx),
        ← Value.equalToMillis_iff.mp (Value.equalToMillis_of_equal hwy)]
      exact Value.equalToMillis_iff.mp hmillis
    obtain rfl : x = y := List.inj_on_of_nodup_map h.keys_nodup hx hy hkey
    rw [Value.equal_iff] at hvx hwy ⊢
    exact Std.TransCmp.eq_trans hvx (Std.OrientedCmp.eq_symm hwy)
  · intro hmillis
    obtain ⟨hpairwise, hcovers⟩ := h.collectedBy
    refine ⟨hpairwise.imp fun hne hequal => hne (Value.equalToMillis_of_equal hequal), fun v hv hpresent => ?_⟩
    obtain ⟨w, hw, hvw⟩ := hcovers v hv hpresent
    exact ⟨w, hw, hmillis v (hfilter.mpr ⟨hv, hpresent⟩) w (hfilter.mpr (h.mem_values w hw)) hvw⟩

end Accumulator

/-- Groups and sets go by equality to the millisecond, and by equality itself iff the milliseconds of dates
    decide it for all their values. -/
theorem identity_iff_millisSuffice {g : Grouping} {limit : Option Nat} {docs out : List Value}
    (h : g.applyTo limit docs = .ok out) (values : List Value) :
    (∃ placed, g.placements limit [] docs = .ok placed ∧ docs.mapM g.idOf = .ok (placed.map Prod.fst) ∧
      (∀ p ∈ placed, p.2 < out.length) ∧ Grouping.GroupedBy Value.equalToMillis placed ∧
        (Grouping.GroupedBy Value.equal placed ↔ Value.MillisSuffice (placed.map Prod.fst))) ∧
    (∃ items, (values.foldlM Accumulator.add (.addToSet [] #[])).map Accumulator.result = .ok (.array items) ∧
      Accumulator.CollectedBy Value.equalToMillis values items ∧
        (Accumulator.CollectedBy Value.equal values items ↔
          Value.MillisSuffice (values.filter fun v => !v.isMissing))) := by
  constructor
  · obtain ⟨placed, hplaced, hids, hbound, hgrouped⟩ := Grouping.exists_placements h
    exact ⟨placed, hplaced, hids, hbound, hgrouped, Grouping.groupedBy_equal_iff hgrouped⟩
  · obtain ⟨seen, items, hrun, hset⟩ := Accumulator.exists_setOf values
    exact ⟨items.toList, by rw [hrun]; rfl, hset.collectedBy, hset.collectedBy_equal_iff⟩

/-- A field that is null and one that is not there share a group, and a number has its own. -/
theorem groupedBy_equal_null : ∃ placed,
    (Grouping.counting (.string "$k")).placements none [] [.object [("k", .null)], .object [("k", .int 2)],
      .object []] = .ok placed ∧ Grouping.GroupedBy Value.equal placed := by
  obtain ⟨⟨placed, hplaced, -, -, -, hiff⟩, -⟩ := identity_iff_millisSuffice
    (show (Grouping.counting (.string "$k")).applyTo none [.object [("k", .null)], .object [("k", .int 2)],
      .object []] =
        .ok [.object [("_id", .null), ("count", .int 2)], .object [("_id", .int 2), ("count", .int 1)]] from rfl) []
  refine ⟨placed, hplaced, hiff.mpr ?_⟩
  obtain rfl : [(.null, 0), (.int 2, 1), (.null, 0)] = placed := Except.ok.inj hplaced
  unfold Value.MillisSuffice
  decide

/-- The start of the year 2024 and some microseconds. -/
def newYear (micros : Fin 1000000) : Value :=
  .date ⟨1704067200, micros * 1000, by decide, by unfold Instant.billion; omega⟩

/-- Two instants of one millisecond are not equal but share a group. -/
theorem not_groupedBy_equal_newYear :
    (Grouping.counting (.string "$d")).applyTo none [.object [("d", newYear 100)], .object [("d", newYear 200)]] =
        .ok [.object [("_id", newYear 100), ("count", .int 2)]] ∧
      ∃ placed, (Grouping.counting (.string "$d")).placements none []
        [.object [("d", newYear 100)], .object [("d", newYear 200)]] = .ok placed ∧
          ¬Grouping.GroupedBy Value.equal placed := by
  refine ⟨rfl, [(newYear 100, 0), (newYear 200, 0)], rfl, fun h => ?_⟩
  exact absurd ((h _ List.mem_cons_self _ (List.mem_cons_of_mem _ List.mem_cons_self)).mp rfl) (by decide)

end DocQuery
