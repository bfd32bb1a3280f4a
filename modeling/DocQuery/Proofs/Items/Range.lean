import Mathlib.Algebra.Order.Ring.Int
import DocQuery.Proofs.Expr.Applied

/-! Ranges of integers. The number of items is the distance to the end in the direction of the step, divided by the step
    and rounded up; this is how many of the integers `start`, `start + step` and so on come before the end. All of them
    lie between two bounds of 64 bits, so none is wrapped. -/

namespace DocQuery

namespace Items

variable {start stop step n : Int} {ns ms : List Int} {i : Nat}

/-! ### Progressions -/

/-- The integer lies strictly before the end, in the direction of the step. -/
def LiesBefore (stop step n : Int) : Prop := if 0 < step then n < stop else stop < n

/-- The integers `start`, `start + step` and so on, as long as they lie before the end. -/
structure IsProgression (start stop step : Int) (ns : List Int) : Prop where
  item (i : Nat) (h : i < ns.length) : ns[i] = start + i * step
  ends (i : Nat) : i < ns.length ↔ LiesBefore stop step (start + i * step)

theorem IsProgression.unique (h : IsProgression start stop step ns) (h' : IsProgression start stop step ms) :
    ns = ms := by
  have hlength : ns.length = ms.length := eq_of_forall_lt_iff fun i => (h.ends i).trans (h'.ends i).symm
  exact List.ext_getElem hlength fun i hi hi' => (h.item i hi).trans (h'.item i hi').symm

/-- The first items of a progression. -/
def progression (start step : Int) (count : Nat) : List Int := (List.range count).map fun i : Nat => start + i * step

@[simp] theorem length_progression (start step : Int) (count : Nat) : (progression start step count).length = count := by
  rw [progression, List.length_map, List.length_range]

theorem getElem_progression {count : Nat} (h : i < (progression start step count).length) :
    (progression start step count)[i] = start + i * step := by
  simp only [progression, List.getElem_map, List.getElem_range]

/-! ### Counting -/

theorem lt_div_up_iff {a b : Nat} (hb : 0 < b) : i < (a + b - 1) / b ↔ i * b < a := by
  rw [← Nat.succ_le_iff, Nat.le_div_iff_mul_le hb, Nat.succ_mul]
  omega

/-- The distance to the end counts in the direction of the step. -/
theorem rangeLength_eq (hstep : step ≠ 0) : rangeLength start stop step =
    ((if 0 < step then stop - start else start - stop).toNat + step.natAbs - 1) / step.natAbs := by
  have hnone : (0 + step.natAbs - 1) / step.natAbs = 0 := Nat.div_eq_of_lt (by omega)
  simp only [rangeLength, ne_eq, eq_iff_iff]
  split_ifs with hempty hup hup
  · rw [Int.toNat_of_nonpos (by omega), hnone]
  · rw [Int.toNat_of_nonpos (by omega), hnone]
  · have hdistance : (stop - start).natAbs = (stop - start).toNat := by omega
    rw [hdistance]
  · have hdistance : (stop - start).natAbs = (start - stop).toNat := by omega
    rw [hdistance]

theorem lt_rangeLength_iff (hstep : step ≠ 0) :
    i < rangeLength start stop step ↔ LiesBefore stop step (start + i * step) := by
  have hscaled : ((i * step.natAbs : Nat) : Int) = if 0 < step then i * step else -(i * step) := by
    split_ifs with hup
    · rw [Nat.cast_mul, Int.natAbs_of_nonneg hup.le]
    · rw [Nat.cast_mul, Int.ofNat_natAbs_of_nonpos (Int.not_lt.mp hup), mul_neg]
  rw [rangeLength_eq hstep, lt_div_up_iff (Int.natAbs_pos.mpr hstep), LiesBefore]
  split_ifs at hscaled ⊢ <;> omega

theorem isProgression_progression (hstep : step ≠ 0) :
    IsProgression start stop step (progression start step (rangeLength start stop step)) where
  item _ h := getElem_progression h
  ends i := by rw [length_progression, lt_rangeLength_iff hstep]

/-! ### Integers of 64 bits -/

/-- What lies before the end lies between the bounds. -/
theorem LiesBefore.between (h : LiesBefore stop step (start + i * step)) :
    min start stop ≤ start + i * step ∧ start + i * step ≤ max start stop := by
  unfold LiesBefore at h
  split_ifs at h with hup
  · have hsteps : 0 ≤ i * step := mul_nonneg (Int.natCast_nonneg i) hup.le
    omega
  · have hsteps : i * step ≤ 0 := mul_nonpos_of_nonneg_of_nonpos (Int.natCast_nonneg i) (Int.not_lt.mp hup)
    omega

/-- No item of a progression between bounds of 64 bits is wrapped. -/
theorem IsProgression.toInt_ofInt {start stop : Int64} (h : IsProgression start.toInt stop.toInt step ns) (hn : n ∈ ns) :
    (Int64.ofInt n).toInt = n := by
  obtain ⟨i, hi, rfl⟩ := List.mem_iff_getElem.mp hn
  rw [h.item i hi]
  obtain ⟨hlow, hhigh⟩ := ((h.ends i).mp hi).between
  have hstart := start.le_toInt
  have hstop := stop.le_toInt
  have hstart' := start.toInt_lt
  have hstop' := stop.toInt_lt
  exact Int64.toInt_ofInt_of_le (by omega) (by omega)

theorem IsProgression.exists_items {start stop : Int64} (h : IsProgression start.toInt stop.toInt step ns) :
    ∃ items : List Int64, items.map Int64.toInt = ns ∧ ns.map (fun n => Value.int (Int64.ofInt n)) = items.map .int := by
  refine ⟨ns.map Int64.ofInt, ?_, by rw [List.map_map]; rfl⟩
  rw [List.map_map]
  exact (List.map_congr_left fun n hn => h.toInt_ofInt hn).trans (List.map_id ns)

/-! ### The operator -/

theorem range_eq {start stop step : Int64} {v w u : Value} (hv : v.toInt? = some start) (hw : w.toInt? = some stop)
    (hu : u.toInt? = some step) (hstep : step ≠ 0) :
    let count := rangeLength start.toInt stop.toInt step.toInt
    range v w [u] = if 1000000 < count then .error (.rangeTooLong count 1000000)
      else .ok (.array ((progression start.toInt step.toInt count).map fun n => .int (Int64.ofInt n))) := by
  intro count
  have hne : step.toInt ≠ 0 := fun h => hstep (Int64.toInt_inj.mp h)
  rw [range, Value.expectInt_of_toInt? "$range" hv, Value.expectInt_of_toInt? "$range" hw]
  simp only [bind, Except.bind, Value.expectInt_of_toInt? "$range" hu, if_neg hne]
  rw [progression, List.map_map]
  by_cases hlong : maxRange < count
  · rw [if_pos hlong]
    exact (if_pos hlong).symm
  · rw [if_neg hlong]
    exact (if_neg hlong).symm

end Items

namespace Expr

open Items

variable {a b c : Value} {s : Scope} {start stop step : Int64}

/-- A range has all the integers `start`, `start + step` and so on that lie before the end in the direction of the step,
    none of them wrapped, or there are more than a million of them, which is the only fault. -/
theorem evaluate_range_exact (ha : ComesToInt a s start) (hb : ComesToInt b s stop) (hc : ComesToInt c s step)
    (hstep : step ≠ 0) :
    let ranged := evaluate (applied "$range" [a, b, c]) s
    (∃! ns, IsProgression start.toInt stop.toInt step.toInt ns) ∧
    ∀ ns, IsProgression start.toInt stop.toInt step.toInt ns →
      (ns.length ≤ 1000000 → ∃ items : List Int64, items.map Int64.toInt = ns ∧ ranged = .ok (.array (items.map .int))) ∧
      (∀ fault, ranged = .error fault ↔ 1000000 < ns.length ∧ fault = .rangeTooLong ns.length 1000000) ∧
      (Fault.rangeTooLong ns.length 1000000).kind = .limitExceeded := by
  intro ranged
  obtain ⟨v, hv, hstart⟩ := ha
  obtain ⟨w, hw, hstop⟩ := hb
  obtain ⟨u, hu, hsteps⟩ := hc
  have hne : step.toInt ≠ 0 := fun h => hstep (Int64.toInt_inj.mp h)
  have hranged : ranged = range v w [u] :=
    evaluate_ranged rfl rfl (.cons hv (.cons hw (.cons hu .nil))) (Nat.le_refl 1)
  have hprogression : IsProgression start.toInt stop.toInt step.toInt _ := isProgression_progression hne
  refine ⟨⟨_, hprogression, fun ns hns => hns.unique hprogression⟩, fun ns hns => ?_⟩
  obtain rfl := hprogression.unique hns
  rw [hranged, range_eq hstart hstop hsteps hstep, length_progression]
  refine ⟨fun hlength => ?_, fun fault => ?_, rfl⟩
  · obtain ⟨items, hitems, hvalues⟩ := hprogression.exists_items
    exact ⟨items, hitems, by rw [if_neg (Nat.not_lt.mpr hlength), hvalues]⟩
  · split
    · next hlong => rw [Except.error.injEq, and_iff_right hlong, eq_comm]
    · next hshort => exact iff_of_false (fun h => nomatch h) fun h => hshort h.1

/-- The widest step between the widest bounds is made twice. -/
theorem evaluate_range_exact_widest :
    let min : Int64 := -9223372036854775808
    let max : Int64 := 9223372036854775807
    let s : Scope := { root := .null }
    (ComesToInt (.int min) s min ∧ ComesToInt (.int max) s max ∧ max ≠ 0) ∧
      ∃ items : List Int64, items.map Int64.toInt = [-9223372036854775808, -1, 9223372036854775806] ∧
        evaluate (applied "$range" [.int min, .int max, .int max]) s = .ok (.array (items.map .int)) := by
  intro min max s
  have hmin : min.toInt = -9223372036854775808 := by decide +kernel
  have hmax : max.toInt = 9223372036854775807 := by decide +kernel
  have hstep : max ≠ 0 := by decide +kernel
  have hns : IsProgression min.toInt max.toInt max.toInt [-9223372036854775808, -1, 9223372036854775806] := by
    rw [hmin, hmax]
    refine ⟨fun i hi => ?_, fun i => ?_⟩
    · match i, hi with
      | 0, _ | 1, _ | 2, _ => rfl
    · rw [LiesBefore, if_pos (by decide)]
      simp only [List.length_cons, List.length_nil]
      omega
  obtain ⟨-, hexact⟩ := evaluate_range_exact (comesToInt_int min s) (comesToInt_int max s) (comesToInt_int max s) hstep
  exact ⟨⟨comesToInt_int min s, comesToInt_int max s, hstep⟩, (hexact _ hns).1 (by decide)⟩

end Expr

end DocQuery
