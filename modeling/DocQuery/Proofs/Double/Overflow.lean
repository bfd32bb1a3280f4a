import DocQuery.Proofs.Double.Whole

/-! Where the doubles end. The greatest double has an odd significand, and the power of two beyond it, which is no
    double, would have an even one; so a magnitude is rounded to infinity from the point halfway between them on. -/

namespace DocQuery

variable {num den : Nat}

/-- A quotient is rounded below an even number iff it is below by more than a half. -/
theorem roundQuotient_lt_even_iff (hden : 0 < den) (m : Nat) :
    roundQuotient num den < 2 * (m + 1) ↔ 2 * num < (4 * m + 3) * den := by
  have hdivision := Nat.div_add_mod num den
  have hrest := Nat.mod_lt num hden
  have hlow := Double.le_roundQuotient num den
  have hhigh := Double.roundQuotient_le num den
  rw [Nat.mul_comm] at hdivision
  rcases Nat.lt_trichotomy (num / den) (2 * m + 1) with hbelow | hequal | habove
  · -- Below an odd floor there is a whole number between the quotient and the bound.
    have hbound : 2 * ((num / den + 1) * den) ≤ (4 * m + 2) * den := by
      rw [← Nat.mul_assoc]
      exact Nat.mul_le_mul_right den (by omega)
    rw [Nat.add_mul] at hbound
    have hstep : (4 * m + 2) * den ≤ (4 * m + 3) * den := Nat.mul_le_mul_right den (Nat.le_succ _)
    exact iff_of_true (by omega) (by omega)
  · -- The floor is odd, so that a half is rounded up.
    have hsplit : (4 * m + 3) * den = 2 * ((2 * m + 1) * den) + den := by ring
    rw [hequal] at hdivision
    rw [hsplit]
    simp only [roundQuotient, hequal]
    split_ifs <;> omega
  · have hbound : (4 * m + 3) * den ≤ 2 * (num / den * den) := by
      rw [← Nat.mul_assoc]
      exact Nat.mul_le_mul_right den (by omega)
    exact iff_of_false (by omega) (by omega)

namespace Double

variable {negative : Bool} {c w : Nat}

/-- The exponent of the greatest doubles. -/
def lastExponent : Nat := 2045

/-- Halfway from the greatest double to the power of two beyond it, in units. -/
def overflow : Nat := (2 ^ 54 - 1) * 2 ^ (lastExponent - 1)

theorem two_mul_overflow : 2 * overflow = (2 ^ 54 - 1) * 2 ^ lastExponent := by
  obtain ⟨e, he⟩ : ∃ e, lastExponent = e + 1 := ⟨2044, rfl⟩
  rw [overflow, he, Nat.add_sub_cancel, Nat.pow_succ]
  ring

/-- A quotient has the code of a double iff it is below the point where doubles end. -/
theorem nearestCode_lt_finiteCodes_iff (hden : 0 < den) : nearestCode num den < finiteCodes ↔ num < overflow * den := by
  have hcodes : finiteCodes = (lastExponent + 2) * 2 ^ 52 := by decide
  have hlog : overflow.log2 = lastExponent + 52 := by decide +kernel
  obtain ⟨e, he⟩ : ∃ e, (num / den).log2 - 52 = e := ⟨_, rfl⟩
  rcases Nat.lt_trichotomy e lastExponent with hbelow | rfl | habove
  · -- Away from the last exponent the logarithms alone decide, whatever the rounding does.
    have hcode := nearestCode_le num den
    rw [← Nat.div_lt_iff_lt_mul hden]
    refine iff_of_true (by omega) (Nat.not_le.mp fun hle => ?_)
    have := log2_mono hle
    omega
  · -- The significand must not be rounded up to the next exponent.
    have hcode : nearestCode num den = lastExponent * 2 ^ 52 + roundQuotient num (den * 2 ^ lastExponent) := by
      simp only [nearestCode, he, Nat.shiftLeft_eq]
    have hround : roundQuotient num (den * 2 ^ lastExponent) < 2 ^ 53 ↔
        2 * num < (2 ^ 54 - 1) * (den * 2 ^ lastExponent) :=
      roundQuotient_lt_even_iff (Nat.mul_pos hden (Nat.two_pow_pos _)) (2 ^ 52 - 1)
    rw [Nat.mul_left_comm, ← two_mul_overflow, Nat.mul_left_comm, Nat.mul_lt_mul_left (by decide),
      Nat.mul_comm den overflow] at hround
    rw [hcode, ← hround]
    omega
  · have hcode := le_nearestCode num den (by omega)
    rw [← Nat.div_lt_iff_lt_mul hden]
    refine iff_of_false (by omega) fun hlt => ?_
    have := log2_mono hlt.le
    omega

theorem unitsOf_lt_overflow_iff : unitsOf c < overflow ↔ c < finiteCodes := by
  rw [← Nat.mul_one overflow, ← nearestCode_lt_finiteCodes_iff Nat.one_pos, nearestCode_unitsOf]

theorem ofUnits_of_lt (hden : 0 < den) (h : num < overflow * den) : ofUnits negative num den =
    .finite negative ⟨nearestCode num den, (nearestCode_lt_finiteCodes_iff hden).mpr h⟩ :=
  dif_pos ((nearestCode_lt_finiteCodes_iff hden).mpr h)

theorem ofUnits_of_le (hden : 0 < den) (h : overflow * den ≤ num) : ofUnits negative num den = .infinite negative :=
  dif_neg ((nearestCode_lt_finiteCodes_iff hden).not.mpr (Nat.not_lt.mpr h))

theorem isFinite_ofUnits_iff (hden : 0 < den) : (ofUnits negative num den).isFinite ↔ num < overflow * den := by
  rcases Nat.lt_or_ge num (overflow * den) with hlt | hge
  · exact iff_of_true (by rw [ofUnits_of_lt hden hlt]; rfl) hlt
  · exact iff_of_false (by rw [ofUnits_of_le hden hge]; exact Bool.false_ne_true) (Nat.not_lt.mpr hge)

/-- The quotient by 1 or more stays below. -/
theorem unitsOf_mul_one_lt (hc : c < finiteCodes) (hden : one ≤ den) : unitsOf c * one < overflow * den :=
  calc unitsOf c * one < overflow * one := Nat.mul_lt_mul_of_pos_right (unitsOf_lt_overflow_iff.mpr hc) one_pos
    _ ≤ overflow * den := Nat.mul_le_mul_left _ hden

/-- A whole number that is above a double by half of one at most is not yet where the doubles end. -/
theorem mul_one_lt_overflow (hc : c < finiteCodes) (hw : 2 * (w * one) ≤ 2 * unitsOf c + one) : w * one < overflow := by
  have hgreatest : 2 * unitsOf (finiteCodes - 1) + one < 2 * overflow := by decide +kernel
  have hle : unitsOf c ≤ unitsOf (finiteCodes - 1) := unitsOf_strictMono.monotone (Nat.le_sub_one_of_lt hc)
  omega

end Double

end DocQuery
