import Mathlib.Tactic.Linarith
import DocQuery.Proofs.Double.Code

/-! Rounded quotients. What is rounded depends on the quotient alone, and is off by less than one part in `2 ^ 53`.
    Where a number is a multiple of a power of two that is large enough for the number and divides the unit as well,
    this does not reach to the next multiple of half a unit: the rounded quotient lies on the same side of all halves
    of whole numbers as the exact one, so both have the same whole part and the same nearest whole number. -/

namespace DocQuery

variable {num den c : Nat}

theorem roundQuotient_mul_right (hc : 0 < c) (num den : Nat) :
    roundQuotient (num * c) (den * c) = roundQuotient num den := by
  have htwice : 2 * (num * c % (den * c)) = 2 * (num % den) * c := by rw [Nat.mul_mod_mul_right, Nat.mul_assoc]
  simp only [roundQuotient, Nat.mul_div_mul_right _ _ hc, htwice, Nat.mul_lt_mul_right hc]

/-- Rounding is off by half of one at most. -/
theorem two_mul_roundQuotient (hden : 0 < den) (num : Nat) :
    2 * (roundQuotient num den * den) ≤ 2 * num + den ∧ 2 * num ≤ 2 * (roundQuotient num den * den) + den := by
  have hdivision := Nat.div_add_mod num den
  have hrest := Nat.mod_lt num hden
  rw [Nat.mul_comm] at hdivision
  simp only [roundQuotient]
  split_ifs with hlow hhigh
  · omega
  · rw [Nat.add_mul]
    omega
  · -- A half is rounded down or up.
    rcases Nat.mod_two_eq_zero_or_one (num / den) with heven | hodd
    · rw [heven, Nat.add_zero]
      omega
    · rw [hodd, Nat.add_mul]
      omega

namespace Double

theorem nearestCode_mul_right (hc : 0 < c) (num den : Nat) :
    nearestCode (num * c) (den * c) = nearestCode num den := by
  have hshift : ∀ e, (den * c) <<< e = (den <<< e) * c := fun e => by
    rw [Nat.shiftLeft_eq, Nat.shiftLeft_eq, Nat.mul_right_comm]
  simp only [nearestCode, Nat.mul_div_mul_right _ _ hc, hshift, roundQuotient_mul_right hc]

/-- A quotient that has a code of its own is not rounded. -/
theorem unitsOf_nearestCode_of_dvd {s e : Nat} (hs : s < 2 ^ 53) (hden : 0 < den) :
    unitsOf (nearestCode (s * 2 ^ e * den) den) = s * 2 ^ e := by
  have hcode := nearestCode_mul_right hden (s * 2 ^ e) 1
  rw [Nat.one_mul] at hcode
  rw [hcode, unitsOf_nearestCode hs]

/-- From 53 bits on the significand of a quotient is the quotient in units of its exponent, rounded. -/
theorem unitsOf_nearestCode_eq {e : Nat} (hquotient : 2 ^ 52 ≤ num / den) (he : (num / den).log2 - 52 = e) :
    unitsOf (nearestCode num den) = roundQuotient num (den * 2 ^ e) * 2 ^ e := by
  obtain ⟨hlow, hhigh⟩ := quotient_bits hquotient he
  have hdown := le_roundQuotient num (den * 2 ^ e)
  have hup := roundQuotient_le num (den * 2 ^ e)
  have hcode : nearestCode num den = e * 2 ^ 52 + roundQuotient num (den * 2 ^ e) := by
    simp only [nearestCode, he, Nat.shiftLeft_eq]
  rw [hcode]
  rcases Nat.lt_or_eq_of_le (Nat.le_trans hup hhigh) with hlt | heq
  · exact unitsOf_add hlt fun _ => Nat.le_trans hlow hdown
  · -- The significand was rounded up to the next exponent.
    have hnext : e * 2 ^ 52 + 2 ^ 53 = (e + 1) * 2 ^ 52 + 2 ^ 52 := by ring
    rw [heq, hnext, unitsOf_add (by decide) fun _ => Nat.le_refl _]
    ring

/-- Rounding is off by less than one part in `2 ^ 53`. -/
theorem nearestCode_error (hden : 0 < den) (hquotient : 2 ^ 52 ≤ num / den) :
    2 ^ 53 * (unitsOf (nearestCode num den) * den) < 2 ^ 53 * num + num ∧
      2 ^ 53 * num < 2 ^ 53 * (unitsOf (nearestCode num den) * den) + num := by
  obtain ⟨e, he⟩ : ∃ e, (num / den).log2 - 52 = e := ⟨_, rfl⟩
  have hpos : 0 < den * 2 ^ e := Nat.mul_pos hden (Nat.two_pow_pos e)
  -- The exponent is that of the quotient, so that half a unit of it is at most one part in `2 ^ 53`.
  have hunit : 2 ^ 52 * (den * 2 ^ e) ≤ num := (Nat.le_div_iff_mul_le hpos).mp (quotient_bits hquotient he).1
  have hunits : unitsOf (nearestCode num den) * den = roundQuotient num (den * 2 ^ e) * (den * 2 ^ e) := by
    rw [unitsOf_nearestCode_eq hquotient he]
    ring
  have hround := two_mul_roundQuotient hpos num
  rw [hunits]
  rcases Nat.lt_or_eq_of_le hunit with hlt | heq
  · omega
  · -- A power of two is not rounded.
    have hexact : roundQuotient num (den * 2 ^ e) = 2 ^ 52 := by
      rw [← heq, roundQuotient_mul hpos]
    rw [hexact]
    omega

/-! ### Halves -/

theorem add_le_of_dvd {a b p : Nat} (ha : p ∣ a) (hb : p ∣ b) (h : a < b) : a + p ≤ b := by
  have hle := Nat.le_of_dvd (Nat.sub_pos_of_lt h) (Nat.dvd_sub hb ha)
  omega

/-- The number `d` is a multiple of `2 ^ t` of at most 53 bits, and so is half of the unit `u`: what 53 bits tell apart
    near `d` is less than the distance from `d` to any other half of a multiple of the unit. -/
structure Resolved (t d u : Nat) : Prop where
  dvd : 2 ^ t ∣ d
  le : d ≤ 2 ^ (53 + t)
  dvd_unit : 2 ^ (t + 1) ∣ u
  lt_unit : 2 ^ (t + 1) < u
  unit_le : 2 ^ 52 * u ≤ one

namespace Resolved

variable {d t u w : Nat}

theorem unit_pos (h : Resolved t d u) : 0 < u := Nat.zero_lt_of_lt h.lt_unit

/-- The error of the quotient is below the least step between multiples. -/
theorem error (h : Resolved t d u) (hpos : 0 < d) :
    2 * unitsOf (nearestCode (d * one) u) * u < (2 * d + 2 ^ (t + 1)) * one ∧
      2 * d * one < 2 * unitsOf (nearestCode (d * one) u) * u + 2 ^ (t + 1) * one := by
  have hquotient : 2 ^ 52 ≤ d * one / u := by
    rw [Nat.le_div_iff_mul_le h.unit_pos]
    exact Nat.le_trans h.unit_le (Nat.le_mul_of_pos_left one hpos)
  obtain ⟨hhigh, hlow⟩ := nearestCode_error h.unit_pos hquotient
  have hbound : d * one ≤ 2 ^ 53 * (2 ^ t * one) := by
    rw [← Nat.mul_assoc, ← Nat.pow_add]
    exact Nat.mul_le_mul_right one h.le
  rw [Nat.pow_succ]
  constructor
  · linarith
  · linarith

theorem unitsOf_quotient_of_eq (h : Resolved t d u) (hequal : w * u = 2 * d) :
    2 * unitsOf (nearestCode (d * one) u) = w * one := by
  have hsmall : w < 2 ^ 53 := by
    have hbound : w * u < 2 ^ 53 * u :=
      calc w * u = 2 * d := hequal
        _ ≤ 2 * 2 ^ (53 + t) := Nat.mul_le_mul_left 2 h.le
        _ = 2 ^ 53 * 2 ^ (t + 1) := by ring
        _ < 2 ^ 53 * u := Nat.mul_lt_mul_of_pos_left h.lt_unit (by decide)
    exact Nat.lt_of_mul_lt_mul_right hbound
  -- The quotient is a half of `w`, and a half is still a power of two of units: nothing is rounded.
  obtain ⟨b, hb⟩ : ∃ b, unitBits = b + 1 := ⟨1073, rfl⟩
  have hhalf : one = 2 * 2 ^ b := by rw [one_eq, hb, Nat.pow_succ']
  have hnumber : d * one = w * 2 ^ b * u := by
    rw [hhalf, Nat.mul_right_comm, hequal]
    ring
  rw [hnumber, unitsOf_nearestCode_of_dvd hsmall h.unit_pos, hhalf]
  ring

/-- The rounded quotient lies on the same side of a half of a whole number as the exact quotient. -/
theorem mul_one_le_iff (h : Resolved t d u) (w : Nat) :
    w * one ≤ 2 * unitsOf (nearestCode (d * one) u) ↔ w * u ≤ 2 * d := by
  have hu := h.unit_pos
  rcases Nat.eq_zero_or_pos d with rfl | hpos
  · have hzero : unitsOf (nearestCode (0 * 2 ^ 0 * u) u) = 0 * 2 ^ 0 := unitsOf_nearestCode_of_dvd (by decide) hu
    simp only [Nat.zero_mul] at hzero ⊢
    rw [hzero, Nat.mul_zero, Nat.le_zero, Nat.le_zero, Nat.mul_eq_zero, Nat.mul_eq_zero, or_iff_left one_pos.ne',
      or_iff_left hu.ne']
  obtain ⟨hhigh, hlow⟩ := h.error hpos
  -- Both sides are multiples of `2 ^ (t + 1)`: unless they are equal they are further apart than the error.
  have hdouble : 2 ^ (t + 1) ∣ 2 * d := by
    rw [Nat.pow_succ, Nat.mul_comm]
    exact Nat.mul_dvd_mul_left 2 h.dvd
  have hmultiple : 2 ^ (t + 1) ∣ w * u := Dvd.dvd.mul_left h.dvd_unit w
  rcases Nat.lt_trichotomy (w * u) (2 * d) with hbelow | hequal | habove
  · have hstep := Nat.mul_le_mul_right one (add_le_of_dvd hmultiple hdouble hbelow)
    refine iff_of_true (Nat.le_of_mul_le_mul_right ?_ hu) hbelow.le
    linarith
  · exact iff_of_true (h.unitsOf_quotient_of_eq hequal).ge hequal.le
  · have hstep := Nat.mul_le_mul_right one (add_le_of_dvd hdouble hmultiple habove)
    refine iff_of_false (Nat.not_le_of_lt (Nat.lt_of_mul_lt_mul_right (a := u) ?_)) (Nat.not_le_of_lt habove)
    linarith

/-- The whole part of the rounded quotient. -/
theorem quotient_div_one (h : Resolved t d u) : unitsOf (nearestCode (d * one) u) / one = d / u := by
  refine eq_of_forall_le_iff fun w => ?_
  have hside := h.mul_one_le_iff (2 * w)
  rw [Nat.mul_assoc, Nat.mul_assoc, Nat.mul_le_mul_left_iff (by decide), Nat.mul_le_mul_left_iff (by decide)] at hside
  rw [Nat.le_div_iff_mul_le one_pos, Nat.le_div_iff_mul_le h.unit_pos]
  exact hside

/-- The whole number nearest to the rounded quotient, a half upwards. -/
theorem quotient_add_half_div_one (h : Resolved t d u) :
    (2 * unitsOf (nearestCode (d * one) u) + one) / (2 * one) = (2 * d + u) / (2 * u) := by
  have hone := one_pos
  have hu := h.unit_pos
  -- Two floors are equal when the same whole numbers lie below them, which is a question of halves.
  refine eq_of_forall_le_iff fun w => ?_
  rw [Nat.le_div_iff_mul_le (by omega), Nat.le_div_iff_mul_le (by omega)]
  cases w with
  | zero => simp
  | succ w =>
    have hside := h.mul_one_le_iff (2 * w + 1)
    constructor
    · intro hle
      have := hside.mp (by linarith)
      linarith
    · intro hle
      have := hside.mpr (by linarith)
      linarith

end Resolved

end Double

end DocQuery
