import DocQuery.Proofs.Worth

/-! Rounding keeps the order. The nearest code grows with the magnitude: within one exponent the rounded significand
    does, and a larger exponent outweighs what rounding can add. So the nearest double falls and rises with the exact
    number of units, and an integer of 53 bits, which has a double of its own, bounds what is rounded beyond it. -/

namespace DocQuery

theorem roundQuotient_mono {m n : Nat} (den : Nat) (h : m ≤ n) : roundQuotient m den ≤ roundQuotient n den := by
  have hm := Nat.div_add_mod m den
  have hn := Nat.div_add_mod n den
  rcases Nat.lt_or_eq_of_le (Nat.div_le_div_right (c := den) h) with hquotient | hquotient
  · -- Rounding up ends at the next quotient.
    calc roundQuotient m den ≤ m / den + 1 := Double.roundQuotient_le m den
      _ ≤ n / den := hquotient
      _ ≤ roundQuotient n den := Double.le_roundQuotient n den
  · -- The quotients are equal, so the rests are in the same order.
    rw [hquotient] at hm
    have hrest : m % den ≤ n % den := by omega
    simp only [roundQuotient, hquotient]
    split_ifs <;> omega

namespace Double

variable {m n : Nat} {u v : Int}

theorem log2_mono (h : m ≤ n) : m.log2 ≤ n.log2 := by
  rcases Nat.eq_zero_or_pos m with rfl | hm
  · exact Nat.zero_le _
  · exact (Nat.le_log2 (by omega)).mpr ((Nat.log2_self_le hm.ne').trans h)

theorem nearestCode_mono (den : Nat) (h : m ≤ n) : nearestCode m den ≤ nearestCode n den := by
  have hlog : (m / den).log2 ≤ (n / den).log2 := log2_mono (Nat.div_le_div_right h)
  rcases Nat.lt_or_eq_of_le (Nat.sub_le_sub_right hlog 52) with hexponent | hexponent
  · have hlow := nearestCode_le m den
    have hhigh := le_nearestCode n den (by omega)
    omega
  · simp only [nearestCode, hexponent]
    exact Nat.add_le_add_left (roundQuotient_mono _ h) _

/-! ### Whole numbers of units -/

theorem rank_ofUnits (negative : Bool) (n : Nat) :
    rank (ofUnits negative n) = if negative then -(min (nearestCode n 1) finiteCodes : Int)
      else min (nearestCode n 1) finiteCodes := by
  unfold ofUnits
  split
  · next h => rw [min_eq_left (Int.ofNat_le.mpr h.le), rank]
  · next h => rw [min_eq_right (Int.ofNat_le.mpr (Nat.not_lt.mp h)), rank]

theorem rank_ofIntUnits (u : Int) :
    rank (ofIntUnits u) = if u < 0 then -(min (nearestCode u.natAbs 1) finiteCodes : Int)
      else min (nearestCode u.natAbs 1) finiteCodes := by
  unfold ofIntUnits
  split
  · next h =>
    rw [h]
    rfl
  · rw [rank_ofUnits]
    simp only [decide_eq_true_eq]

/-- The nearest double rises with the number of units. -/
theorem rank_ofIntUnits_mono (h : u ≤ v) : rank (ofIntUnits u) ≤ rank (ofIntUnits v) := by
  rw [rank_ofIntUnits, rank_ofIntUnits]
  split_ifs with hu hv hv
  · have hcode : nearestCode v.natAbs 1 ≤ nearestCode u.natAbs 1 := nearestCode_mono 1 (by omega)
    omega
  · omega
  · omega
  · have hcode : nearestCode u.natAbs 1 ≤ nearestCode v.natAbs 1 := nearestCode_mono 1 (by omega)
    omega

/-- The nearest double is worth as many units as its code, with the sign. -/
theorem units_ofIntUnits (h : (ofIntUnits u).isFinite) :
    units (ofIntUnits u) = if u < 0 then -(unitsOf (nearestCode u.natAbs 1) : Int)
      else unitsOf (nearestCode u.natAbs 1) := by
  unfold ofIntUnits at h ⊢
  split at h
  · next hzero =>
    rw [hzero]
    rfl
  · next hne =>
    rw [if_neg hne]
    unfold ofUnits at h ⊢
    split at h
    · next hcode =>
      rw [dif_pos hcode, units_finite]
      simp only [decide_eq_true_eq]
    · exact nomatch h

/-! ### Integers -/

theorem units_ofInt {n : Int} (h : n.natAbs < 2 ^ 64) :
    units (ofInt n) = if n < 0 then -(unitsOf (nearestCode (n.natAbs * one) 1) : Int)
      else unitsOf (nearestCode (n.natAbs * one) 1) := by
  have hone := Worth.one_pos
  have hmagnitude : (n * one).natAbs = n.natAbs * one := by rw [Int.natAbs_mul, Int.natAbs_natCast]
  have hsign : n * one < 0 ↔ n < 0 :=
    ⟨fun hn => neg_of_mul_neg_left hn hone.le, fun hn => mul_neg_of_neg_of_pos hn hone⟩
  have hunits := units_ofIntUnits (isFinite_ofInt h)
  simp only [hmagnitude, hsign] at hunits
  exact hunits

/-- Integers of 53 bits have doubles of their own. -/
theorem units_ofInt_of_lt {n : Int} (h : n.natAbs < 2 ^ 53) : units (ofInt n) = n * one := by
  have hexact : unitsOf (nearestCode (n.natAbs * one) 1) = n.natAbs * one := by
    rw [one_eq]
    exact unitsOf_nearestCode h
  rw [units_ofInt (by omega), hexact]
  split
  · next hneg => rw [Nat.cast_mul, Int.ofNat_natAbs_of_nonpos hneg.le, neg_mul, neg_neg]
  · next hpos => rw [Nat.cast_mul, Int.natAbs_of_nonneg (Int.not_lt.mp hpos)]

theorem toInt_ofInt_of_lt {n : Int} (h : n.natAbs < 2 ^ 53) : toInt (ofInt n) = n := by
  rw [toInt, units_ofInt_of_lt h, Int.mul_tdiv_cancel _ Worth.one_pos.ne']

theorem le_natAbs_toInt_ofInt {n : Int} (h : 2 ^ 53 ≤ n.natAbs) (hbound : n.natAbs < 2 ^ 64) :
    2 ^ 53 ≤ (toInt (ofInt n)).natAbs := by
  -- `2 ^ 53` itself is a double, and rounding does not change the order: what is above stays above.
  have hexact : unitsOf (nearestCode (2 ^ 53 * one) 1) = 2 ^ 53 * one := by
    have hsplit : 2 ^ 53 * one = 2 ^ 52 * 2 ^ (unitBits + 1) := by
      rw [one_eq]
      ring
    rw [hsplit]
    exact unitsOf_nearestCode (by decide)
  have hunits : 2 ^ 53 * one ≤ unitsOf (nearestCode (n.natAbs * one) 1) := by
    rw [← hexact]
    exact unitsOf_strictMono.monotone (nearestCode_mono 1 (Nat.mul_le_mul_right _ h))
  have hmagnitude : 2 ^ 53 * one ≤ (units (ofInt n)).natAbs := by
    rw [units_ofInt hbound]
    split <;> omega
  rw [toInt, Int.natAbs_tdiv, Int.natAbs_natCast]
  exact (Nat.le_div_iff_mul_le one_pos).mpr hmagnitude

end Double

end DocQuery
