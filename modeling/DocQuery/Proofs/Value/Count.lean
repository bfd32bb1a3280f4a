import DocQuery.Proofs.Value.Recoded
import DocQuery.Stage

/-! Counts as values. A count that fits in 64 bits is an integer and is read back as itself. A larger one becomes a
    double, and no double of that size is read as an integer, so a stage refuses it. -/

namespace DocQuery

open Double

variable {n : Nat}

/-! ### Large doubles -/

theorem boundCode_lt : boundCode.val < 1086 * 2 ^ 52 := by decide +kernel

/-- Counts beyond the 64-bit integers are not below the bound up to which doubles are read as integers. -/
theorem not_abs_lt_integerBound (h : 2 ^ 63 ≤ n) : (Double.ofNat n).abs.lt Value.integerBound = false := by
  have hpos : 0 < n * Double.one := Nat.mul_pos (by omega) Double.one_pos
  have hunits : ((n : Int) * Double.one).natAbs = n * Double.one := by rw [← Int.natCast_mul, Int.natAbs_natCast]
  have hne : (n : Int) * Double.one ≠ 0 := by
    rw [← Int.natCast_mul, Int.natCast_ne_zero]
    exact hpos.ne'
  have hlog : 63 + unitBits ≤ (n * Double.one).log2 := by
    rw [Nat.le_log2 hpos.ne', Nat.pow_add, one_eq]
    exact Nat.mul_le_mul_right _ h
  have hbits : unitBits = 1074 := rfl
  -- Codes grow with the magnitude, so that it is enough to compare the binary logarithms.
  have hcode : boundCode.val ≤ nearestCode (n * Double.one) 1 :=
    calc boundCode.val ≤ 1086 * 2 ^ 52 := boundCode_lt.le
      _ ≤ ((n * Double.one / 1).log2 - 51) * 2 ^ 52 := by
        rw [Nat.div_one]
        exact Nat.mul_le_mul_right _ (by omega)
      _ ≤ nearestCode (n * Double.one) 1 := le_nearestCode _ 1 (by rw [Nat.div_one]; omega)
  rw [integerBound_eq, Double.ofNat, Double.ofInt, ofIntUnits, if_neg hne, hunits, ofUnits]
  split
  · rw [Double.abs, lt_positive]
    exact decide_eq_false (Nat.not_lt.mpr hcode)
  · rw [Double.abs, ← integerBound_eq]
    decide +kernel

/-! ### Counts -/

namespace Value

/-- A count is read as an integer iff it fits in 64 bits. -/
theorem toInt?_ofCount (n : Nat) : (ofCount n).toInt? = int64? n := by
  unfold ofCount
  cases hn : int64? n with
  | some m => rfl
  | none =>
    have hlarge : 2 ^ 63 ≤ n := by
      by_contra hsmall
      have hmax : Int64.maxValue.toInt = 2 ^ 63 - 1 := rfl
      have hmin : Int64.minValue.toInt = -2 ^ 63 := rfl
      rw [int64?, if_pos (by omega)] at hn
      exact nomatch hn
    show Value.toInt? (.double (Double.ofNat n)) = none
    rw [toInt?, not_abs_lt_integerBound hlarge, Bool.and_false]
    rfl

end Value

/-- A stage takes a count that is at least what it asks for and fits in 64 bits. -/
theorem Stage.countOf_ofCount {stage : String} {least : Int} {m : Nat} :
    countOf stage least (.ofCount n) = .ok m ↔ least ≤ n ∧ n ≤ Int64.maxValue.toInt ∧ m = n := by
  unfold countOf
  rw [Value.toInt?_ofCount]
  cases hn : int64? n with
  | none =>
    refine iff_of_false (fun h => nomatch h) ?_
    rintro ⟨-, hmax, -⟩
    have hmin : Int64.minValue.toInt ≤ n := Int.le_trans (by decide) (Int.natCast_nonneg n)
    rw [int64?, if_pos ⟨hmin, hmax⟩] at hn
    exact nomatch hn
  | some i =>
    have hi : i.toInt = n := int64?_eq_some.mp hn
    have hmax : (n : Int) ≤ Int64.maxValue.toInt := hi ▸ i.toInt_le
    simp only [hi]
    split
    · next hleast =>
      rw [Except.ok.injEq, Int.toNat_natCast, eq_comm, and_iff_right hleast, and_iff_right hmax]
    · next hleast => exact iff_of_false (fun h => nomatch h) fun h => hleast h.1

end DocQuery
