import Mathlib.Algebra.Order.Ring.Int
import Mathlib.Tactic.Linarith
import DocQuery.Proofs.Double.Code
import DocQuery.Value.Key
import DocQuery.Value.Order

/-! What numbers are worth. Integers and finite doubles are whole numbers of units, so all of them are on
    one scale, with NaN and the infinities beside it. Each comparison of numbers compares what they are
    worth, and a double has an exact integer iff the integer is worth the same. -/

namespace DocQuery

/-- A place on the scale of numbers: NaN in region 0, minus infinity in region 1, the finite numbers by
    their units in region 2, infinity in region 3. -/
@[ext] structure Worth where
  region : Nat
  units : Int
deriving DecidableEq

/-- Integers that stand in the same relation compare in the same way. -/
theorem compare_congr {a b c d : Int} (hlt : a < b ↔ c < d) (hgt : b < a ↔ d < c) :
    Ord.compare a b = Ord.compare c d := by
  simp only [Int.compare_eq_ite_lt, hlt, hgt]

namespace Worth

def compare (a b : Worth) : Ordering := (Ord.compare a.region b.region).then (Ord.compare a.units b.units)

instance : Std.TransCmp compare :=
  inferInstanceAs (Std.TransCmp (compareLex (compareOn Worth.region) (compareOn Worth.units)))

instance : Std.LawfulEqCmp compare where
  eq_of_compare {a b} h := by
    simp only [compare, Ordering.then_eq_eq, Std.LawfulEqOrd.compare_eq_iff_eq] at h
    exact Worth.ext h.1 h.2

theorem compare_finite (m n : Int) : compare ⟨2, m⟩ ⟨2, n⟩ = Ord.compare m n := by
  simp [compare]

/-- What an integer is worth. -/
def ofInt (n : Int) : Worth := ⟨2, n * Double.one⟩

theorem one_pos : (0 : Int) < Double.one := Int.natCast_pos.mpr Double.one_pos

theorem ofInt_inj {m n : Int} : ofInt m = ofInt n ↔ m = n := by
  rw [ofInt, ofInt, Worth.mk.injEq, mul_left_inj' one_pos.ne']
  exact and_iff_right rfl

theorem compare_ofInt (m n : Int) : compare (ofInt m) (ofInt n) = Ord.compare m n := by
  rw [ofInt, ofInt, compare_finite]
  exact compare_congr (mul_lt_mul_iff_left₀ one_pos) (mul_lt_mul_iff_left₀ one_pos)

end Worth

namespace Double

variable {x y : Double} {n : Int64}

/-- What a double is worth. -/
def worth : Double → Worth
  | .nan => ⟨0, 0⟩
  | .infinite negative => if negative then ⟨1, 0⟩ else ⟨3, 0⟩
  | x@(.finite ..) => ⟨2, x.units⟩

/-! ### The order of doubles -/

theorem units_finite (negative : Bool) (code : Fin finiteCodes) :
    units (.finite negative code) = if negative then -(unitsOf code : Int) else unitsOf code := rfl

/-- The ranks of finite doubles are ordered like their units. -/
theorem rank_lt_rank (s t : Bool) (c d : Fin finiteCodes) :
    rank (.finite s c) < rank (.finite t d) ↔ units (.finite s c) < units (.finite t d) := by
  have hlt : unitsOf c < unitsOf d ↔ c.val < d.val := unitsOf_strictMono.lt_iff_lt
  have hgt : unitsOf d < unitsOf c ↔ d.val < c.val := unitsOf_strictMono.lt_iff_lt
  have hc : 0 < unitsOf c ↔ 0 < c.val := unitsOf_pos_iff
  have hd : 0 < unitsOf d ↔ 0 < d.val := unitsOf_pos_iff
  cases s <;> cases t <;> simp only [rank, units_finite, if_true, if_false, Bool.false_eq_true] <;> omega

theorem compare_finite (s t : Bool) (c d : Fin finiteCodes) :
    compare (.finite s c) (.finite t d) = Ord.compare (units (.finite s c)) (units (.finite t d)) :=
  compare_congr (rank_lt_rank s t c d) (rank_lt_rank t s d c)

theorem rank_finite_bounds (s : Bool) (c : Fin finiteCodes) :
    -(finiteCodes : Int) < rank (.finite s c) ∧ rank (.finite s c) < finiteCodes := by
  have hc : (c.val : Int) < finiteCodes := Int.ofNat_lt.mpr c.isLt
  cases s <;> simp only [rank, if_true, if_false, Bool.false_eq_true] <;> omega

theorem compare_eq (x y : Double) : compare x y = x.worth.compare y.worth := by
  cases x with
  | nan =>
    cases y with
    | nan => rfl
    | infinite t => cases t <;> rfl
    | finite t d => rfl
  | infinite s =>
    cases y with
    | nan => cases s <;> rfl
    | infinite t => cases s <;> cases t <;> rfl
    | finite t d =>
      cases s
      · -- Ranks of finite doubles stay strictly between those of the infinities.
        exact Int.compare_eq_gt.mpr (rank_finite_bounds t d).2
      · exact Int.compare_eq_lt.mpr (rank_finite_bounds t d).1
  | finite s c =>
    cases y with
    | nan => rfl
    | infinite t =>
      cases t
      · exact Int.compare_eq_lt.mpr (rank_finite_bounds s c).2
      · exact Int.compare_eq_gt.mpr (rank_finite_bounds s c).1
    | finite t d => rw [compare_finite, worth, worth, Worth.compare_finite]

/-! ### Whole parts -/

theorem toInt_finite (s : Bool) (c : Fin finiteCodes) :
    toInt (.finite s c) = if s then -((unitsOf c / one : Nat) : Int) else (unitsOf c / one : Nat) := by
  cases s
  · rfl
  · show (-(unitsOf c : Int)).tdiv one = _
    rw [Int.neg_tdiv]
    rfl

/-- Dropping the fraction leaves a finite double that is worth the whole part. -/
theorem worth_trunc (s : Bool) (c : Fin finiteCodes) :
    (trunc (.finite s c)).worth = Worth.ofInt (toInt (.finite s c)) := by
  have hlt : nearestCode (unitsOf c / one * one) 1 < finiteCodes :=
    Nat.lt_of_le_of_lt (nearestCode_whole_le c) c.isLt
  have htrunc : trunc (.finite s c) = .finite s ⟨nearestCode (unitsOf c / one * one) 1, hlt⟩ := by
    rw [trunc, ofWhole, ofUnits, dif_pos hlt]
  rw [htrunc, worth, units_finite, toInt_finite, unitsOf_nearestCode_whole, Worth.ofInt]
  cases s <;> simp

/-- The whole part is less than one away. -/
theorem units_bounds (s : Bool) (c : Fin finiteCodes) :
    (toInt (.finite s c) - 1) * one < units (.finite s c) ∧
      units (.finite s c) < (toInt (.finite s c) + 1) * one := by
  have hone := Worth.one_pos
  have hdiv : (unitsOf c / one : Nat) * (one : Int) + (unitsOf c % one : Nat) = unitsOf c := by
    exact_mod_cast Nat.div_add_mod' (unitsOf c) one
  have hmod : ((unitsOf c % one : Nat) : Int) < one := Int.ofNat_lt.mpr (Nat.mod_lt _ Double.one_pos)
  rw [toInt_finite, units_finite]
  generalize (unitsOf c / one : Nat) = w at *
  generalize (unitsOf c % one : Nat) = r at *
  cases s <;> simp only [if_true, if_false, Bool.false_eq_true] <;> constructor <;> nlinarith

theorem isIntegral_finite (s : Bool) (c : Fin finiteCodes) :
    isIntegral (.finite s c) = true ↔ (one : Int) ∣ units (.finite s c) := by
  rw [units_finite, isIntegral, beq_iff_eq, ← Nat.dvd_iff_mod_eq_zero, ← Int.natCast_dvd_natCast]
  cases s <;> simp

end Double

/-! ### Integers against doubles -/

open Double in
theorem compareIntDouble_eq (n : Int64) (x : Double) :
    compareIntDouble n x = (Worth.ofInt n.toInt).compare x.worth := by
  cases x with
  | nan => rfl
  | infinite s => cases s <;> rfl
  | finite s c =>
    have hone := Worth.one_pos
    obtain ⟨hlow, hhigh⟩ := units_bounds s c
    -- An integer on either side of the whole part is on that side of the double.
    have hless : n.toInt < toInt (.finite s c) →
        (Worth.ofInt n.toInt).compare (worth (.finite s c)) = .lt := fun h => by
      rw [Worth.ofInt, worth, Worth.compare_finite, Int.compare_eq_lt]
      nlinarith
    have hmore : toInt (.finite s c) < n.toInt →
        (Worth.ofInt n.toInt).compare (worth (.finite s c)) = .gt := fun h => by
      rw [Worth.ofInt, worth, Worth.compare_finite, Int.compare_eq_gt]
      nlinarith
    unfold compareIntDouble
    have hmin := n.minValue_le_toInt
    have hmax := n.toInt_le
    dsimp only
    split_ifs with habove hbelow
    · exact (hless (by omega)).symm
    · exact (hmore (by omega)).symm
    · rcases lt_trichotomy n.toInt (toInt (.finite s c)) with h | h | h
      · rw [hless h, Int.compare_eq_lt.mpr h]
        rfl
      · rw [Int.compare_eq_eq.mpr h, Ordering.eq_then, compare_eq, worth_trunc, h]
      · rw [hmore h, Int.compare_eq_gt.mpr h]
        rfl

theorem int64?_eq_some {n : Int} {m : Int64} : int64? n = some m ↔ m.toInt = n := by
  unfold int64?
  split_ifs with h
  · rw [Option.some.injEq, ← Int64.toInt_inj, Int64.toInt_ofInt_of_le h.1 (Int.lt_add_one_of_le h.2), eq_comm]
  · refine iff_of_false (by simp) ?_
    rintro rfl
    exact h ⟨m.minValue_le_toInt, m.toInt_le⟩

open Double in
/-- The exact integer of a double is the one that is worth the same. -/
theorem exactInt?_eq_some {x : Double} {n : Int64} : exactInt? x = some n ↔ x.worth = Worth.ofInt n.toInt := by
  unfold exactInt?
  cases x with
  | nan => simp [isIntegral, worth, Worth.ofInt]
  | infinite s => cases s <;> simp [isIntegral, worth, Worth.ofInt]
  | finite s c =>
    rw [worth, Worth.ofInt, Worth.mk.injEq, and_iff_right rfl]
    by_cases hint : isIntegral (.finite s c) = true
    · have hunits : units (.finite s c) = toInt (.finite s c) * one :=
        (Int.tdiv_mul_cancel ((isIntegral_finite s c).mp hint)).symm
      rw [if_pos hint, int64?_eq_some, hunits, mul_left_inj' Worth.one_pos.ne', eq_comm]
    · rw [if_neg hint]
      refine iff_of_false (by simp) fun h => hint ((isIntegral_finite s c).mpr ?_)
      rw [h]
      exact Int.dvd_mul_left _ _

end DocQuery
