import Mathlib.Algebra.Order.Group.Nat
import Mathlib.Order.Monotone.Basic
import Mathlib.Tactic.Ring
import DocQuery.Double

/-! Codes of finite magnitudes. A code is an exponent and a significand put together, the next code is
    one significand unit further, and so the magnitude grows strictly with the code. A magnitude of at
    most 53 significant bits is the magnitude of its nearest code, so rounding does not change it. -/

namespace DocQuery.Double

variable {c d e s u : Nat}

/-! ### Exponent and significand -/

theorem exponentOf_eq (c : Nat) : exponentOf c = c / 2 ^ 52 - 1 := by
  unfold exponentOf
  omega

theorem significandOf_eq (c : Nat) : significandOf c = c - exponentOf c * 2 ^ 52 := by
  unfold significandOf
  omega

theorem unitsOf_eq (c : Nat) : unitsOf c = significandOf c * 2 ^ exponentOf c := by
  rw [unitsOf, Nat.shiftLeft_eq]

theorem code_eq (c : Nat) : exponentOf c * 2 ^ 52 + significandOf c = c := by
  rw [significandOf_eq, exponentOf_eq]
  omega

theorem significandOf_lt (c : Nat) : significandOf c < 2 ^ 53 := by
  rw [significandOf_eq, exponentOf_eq]
  omega

theorem le_significandOf (h : 0 < exponentOf c) : 2 ^ 52 ≤ significandOf c := by
  rw [exponentOf_eq] at h
  rw [significandOf_eq, exponentOf_eq]
  omega

theorem exponentOf_add (hs : s < 2 ^ 53) (he : 0 < e → 2 ^ 52 ≤ s) : exponentOf (e * 2 ^ 52 + s) = e := by
  rw [exponentOf_eq]
  rcases Nat.eq_zero_or_pos e with rfl | h
  · omega
  · have := he h
    omega

theorem significandOf_add (hs : s < 2 ^ 53) (he : 0 < e → 2 ^ 52 ≤ s) :
    significandOf (e * 2 ^ 52 + s) = s := by
  rw [significandOf_eq, exponentOf_add hs he]
  omega

theorem unitsOf_add (hs : s < 2 ^ 53) (he : 0 < e → 2 ^ 52 ≤ s) : unitsOf (e * 2 ^ 52 + s) = s * 2 ^ e := by
  rw [unitsOf_eq, exponentOf_add hs he, significandOf_add hs he]

theorem unitsOf_zero : unitsOf 0 = 0 := by decide

/-! ### Magnitudes grow with codes -/

/-- What the next code adds is one unit of the significand, also where the exponent changes. -/
theorem unitsOf_succ (c : Nat) : unitsOf (c + 1) = unitsOf c + 2 ^ exponentOf c := by
  have hc := code_eq c
  have hs := significandOf_lt c
  -- A significand of 53 ones is followed by the least one of the next exponent.
  by_cases hlast : significandOf c + 1 < 2 ^ 53
  · have h : c + 1 = exponentOf c * 2 ^ 52 + (significandOf c + 1) := by omega
    rw [h, unitsOf_add hlast fun he => by have := le_significandOf he; omega, unitsOf_eq c]
    ring
  · have h : c + 1 = (exponentOf c + 1) * 2 ^ 52 + 2 ^ 52 := by omega
    have hsig : significandOf c = 2 ^ 53 - 1 := by omega
    rw [h, unitsOf_add (by omega) fun _ => Nat.le_refl _, unitsOf_eq c, hsig]
    ring

theorem unitsOf_strictMono : StrictMono unitsOf :=
  strictMono_nat_of_lt_succ fun c => by
    rw [unitsOf_succ]
    exact Nat.lt_add_of_pos_right (Nat.two_pow_pos _)

theorem unitsOf_injective : Function.Injective unitsOf := unitsOf_strictMono.injective

theorem unitsOf_pos_iff : 0 < unitsOf c ↔ 0 < c := by
  have h : unitsOf 0 < unitsOf c ↔ 0 < c := unitsOf_strictMono.lt_iff_lt
  rwa [unitsOf_zero] at h

/-! ### Rounding keeps what it can -/

theorem roundQuotient_mul {n : Nat} (hd : 0 < d) : roundQuotient (n * d) d = n := by
  have hmod : n * d % d = 0 := Nat.mul_mod_left n d
  simp [roundQuotient, hmod, hd]

theorem log2_mul_two_pow (hs : 0 < s) : (s * 2 ^ e).log2 = s.log2 + e := by
  have hp : 0 < 2 ^ e := Nat.two_pow_pos e
  rw [Nat.log2_eq_iff (Nat.mul_pos hs hp).ne', pow_add, Nat.add_right_comm, pow_add]
  exact ⟨Nat.mul_le_mul_right _ (Nat.log2_self_le hs.ne'), Nat.mul_lt_mul_of_pos_right Nat.lt_log2_self hp⟩

/-- The nearest code of a magnitude that is a significand in units of its own exponent. -/
theorem nearestCode_mul_two_pow {n k t : Nat} (hn : n = t * 2 ^ k) (hk : n.log2 - 52 = k) :
    nearestCode n 1 = k * 2 ^ 52 + t := by
  have hround : roundQuotient n (1 <<< k) = t := by
    rw [hn, Nat.shiftLeft_eq, Nat.one_mul, roundQuotient_mul (Nat.two_pow_pos k)]
  simp only [nearestCode, Nat.div_one, hk, hround]
  omega

/-- A magnitude of at most 53 significant bits is that of its nearest code. -/
theorem unitsOf_nearestCode (hs : s < 2 ^ 53) : unitsOf (nearestCode (s * 2 ^ e) 1) = s * 2 ^ e := by
  rcases Nat.eq_zero_or_pos s with rfl | hpos
  · simp [nearestCode, roundQuotient, Nat.log2_zero, unitsOf_zero]
  have hlog : s.log2 < 53 := (Nat.log2_lt hpos.ne').mpr hs
  have hlow : 2 ^ s.log2 ≤ s := Nat.log2_self_le hpos.ne'
  have hhigh : s < 2 ^ (s.log2 + 1) := Nat.lt_log2_self
  by_cases hk : 52 ≤ s.log2 + e
  · -- The significand is shifted left until it has 53 bits.
    have hsplit : s * 2 ^ e = s * 2 ^ (52 - s.log2) * 2 ^ (s.log2 + e - 52) := by
      rw [Nat.mul_assoc, ← pow_add]
      congr 2
      omega
    have hmin : 2 ^ 52 ≤ s * 2 ^ (52 - s.log2) :=
      calc 2 ^ 52 = 2 ^ s.log2 * 2 ^ (52 - s.log2) := by
            rw [← pow_add]
            congr 1
            omega
        _ ≤ s * 2 ^ (52 - s.log2) := Nat.mul_le_mul_right _ hlow
    have hmax : s * 2 ^ (52 - s.log2) < 2 ^ 53 :=
      calc s * 2 ^ (52 - s.log2) < 2 ^ (s.log2 + 1) * 2 ^ (52 - s.log2) :=
            Nat.mul_lt_mul_of_pos_right hhigh (Nat.two_pow_pos _)
        _ = 2 ^ 53 := by
            rw [← pow_add]
            congr 1
            omega
    rw [nearestCode_mul_two_pow hsplit (by rw [log2_mul_two_pow hpos]), unitsOf_add hmax fun _ => hmin, ← hsplit]
  · -- The magnitude is subnormal, and its code is the magnitude itself.
    have hmax : s * 2 ^ e < 2 ^ 53 :=
      calc s * 2 ^ e < 2 ^ (s.log2 + 1) * 2 ^ e := Nat.mul_lt_mul_of_pos_right hhigh (Nat.two_pow_pos _)
        _ = 2 ^ (s.log2 + 1 + e) := (pow_add ..).symm
        _ ≤ 2 ^ 53 := Nat.pow_le_pow_right (by omega) (by omega)
    have hcode : nearestCode (s * 2 ^ e) 1 = 0 * 2 ^ 52 + s * 2 ^ e :=
      nearestCode_mul_two_pow (by simp) (by rw [log2_mul_two_pow hpos]; omega)
    rw [hcode, unitsOf_add hmax fun h => absurd h (Nat.lt_irrefl 0)]
    simp

theorem nearestCode_unitsOf (c : Nat) : nearestCode (unitsOf c) 1 = c := by
  apply unitsOf_injective
  rw [unitsOf_eq c, unitsOf_nearestCode (significandOf_lt c)]

/-! ### Whole numbers -/

theorem one_eq : one = 2 ^ unitBits := by
  rw [one, Nat.shiftLeft_eq, Nat.one_mul]

theorem one_pos : 0 < one := by
  rw [one_eq]
  exact Nat.two_pow_pos _

/-- The whole part of a magnitude has a code: it is the magnitude itself, or below `2 ^ 53`. -/
theorem unitsOf_nearestCode_whole (c : Nat) :
    unitsOf (nearestCode (unitsOf c / one * one) 1) = unitsOf c / one * one := by
  -- From `one` on all magnitudes are whole; below that the whole part has less than 53 bits.
  by_cases he : unitBits ≤ exponentOf c
  · have hdvd : one ∣ unitsOf c := by
      rw [unitsOf_eq, one_eq]
      exact Dvd.dvd.mul_left (pow_dvd_pow 2 he) _
    rw [Nat.div_mul_cancel hdvd, nearestCode_unitsOf]
  · have hle : unitsOf c ≤ significandOf c * one := by
      rw [unitsOf_eq, one_eq]
      exact Nat.mul_le_mul_left _ (Nat.pow_le_pow_right (by omega) (by omega))
    have hs : unitsOf c / one < 2 ^ 53 :=
      Nat.lt_of_le_of_lt (Nat.div_le_of_le_mul (by rwa [Nat.mul_comm])) (significandOf_lt c)
    have h := unitsOf_nearestCode (e := unitBits) hs
    rwa [← one_eq] at h

theorem nearestCode_whole_le (c : Nat) : nearestCode (unitsOf c / one * one) 1 ≤ c := by
  rw [← unitsOf_strictMono.le_iff_le, unitsOf_nearestCode_whole]
  exact Nat.div_mul_le_self _ _

/-! ### Rounding and the highest bit -/

theorem le_roundQuotient (num den : Nat) : num / den ≤ roundQuotient num den := by
  simp only [roundQuotient]
  split
  · exact Nat.le_refl _
  · split <;> exact Nat.le_add_right _ _

theorem roundQuotient_le (num den : Nat) : roundQuotient num den ≤ num / den + 1 := by
  simp only [roundQuotient]
  split
  · exact Nat.le_add_right _ _
  · split
    · exact Nat.le_refl _
    · exact Nat.add_le_add_left (Nat.le_of_lt_succ (Nat.mod_lt _ (by decide))) _

/-- A quotient of 53 bits or more has 53 bits in units of its exponent. -/
theorem quotient_bits {num den e : Nat} (hquotient : 2 ^ 52 ≤ num / den) (he : (num / den).log2 - 52 = e) :
    2 ^ 52 ≤ num / (den * 2 ^ e) ∧ num / (den * 2 ^ e) < 2 ^ 53 := by
  have hne : num / den ≠ 0 := by
    intro hzero
    rw [hzero] at hquotient
    exact absurd hquotient (by decide)
  have hlog : 52 ≤ (num / den).log2 := (Nat.le_log2 hne).mpr hquotient
  rw [← Nat.div_div_eq_div_mul, Nat.le_div_iff_mul_le (Nat.two_pow_pos e), Nat.div_lt_iff_lt_mul (Nat.two_pow_pos e),
    ← Nat.pow_add, ← Nat.pow_add, ← he, Nat.add_sub_cancel' hlog]
  exact ⟨Nat.log2_self_le hne, Nat.lt_of_lt_of_le Nat.lt_log2_self (Nat.pow_le_pow_right (by decide) (by omega))⟩

/-- The code of a quotient is at least that of its highest bit. -/
theorem le_nearestCode (num den : Nat) (h : 52 ≤ (num / den).log2) :
    ((num / den).log2 - 51) * 2 ^ 52 ≤ nearestCode num den := by
  have hne : num / den ≠ 0 := by
    intro hzero
    rw [hzero, Nat.log2_zero] at h
    exact absurd h (by decide)
  have hhigh := (quotient_bits ((Nat.le_log2 hne).mp h) rfl).1
  have hround := Nat.le_trans hhigh (le_roundQuotient num (den * 2 ^ ((num / den).log2 - 52)))
  simp only [nearestCode, Nat.shiftLeft_eq]
  omega

/-- The code of a quotient is bounded by that of its highest bit. -/
theorem nearestCode_le (num den : Nat) : nearestCode num den ≤ ((num / den).log2 - 52) * 2 ^ 52 + 2 ^ 53 := by
  have hhigh : num / (den * 2 ^ ((num / den).log2 - 52)) < 2 ^ 53 := by
    rw [← Nat.div_div_eq_div_mul, Nat.div_lt_iff_lt_mul (Nat.two_pow_pos _), ← Nat.pow_add]
    exact Nat.lt_of_lt_of_le Nat.lt_log2_self (Nat.pow_le_pow_right (by decide) (by omega))
  have hround := roundQuotient_le num (den * 2 ^ ((num / den).log2 - 52))
  simp only [nearestCode, Nat.shiftLeft_eq]
  omega

/-- Integers of 64 bits do not run out of the doubles. -/
theorem isFinite_ofInt {n : Int} (h : n.natAbs < 2 ^ 64) : (ofInt n).isFinite := by
  rw [ofInt, ofIntUnits]
  split
  · rfl
  · next hne =>
    have hbits : unitBits = 1074 := rfl
    -- A code is bounded by the binary logarithm of the quotient, far below the last exponent.
    have hlog : (n * one).natAbs.log2 < 64 + unitBits := by
      rw [Nat.log2_lt (Int.natAbs_ne_zero.mpr hne), Int.natAbs_mul, Int.natAbs_natCast, Nat.pow_add, one_eq]
      exact (Nat.mul_lt_mul_right (Nat.two_pow_pos unitBits)).mpr h
    have hcode := nearestCode_le (n * one).natAbs 1
    rw [Nat.div_one] at hcode
    have hlt : nearestCode (n * one).natAbs 1 < finiteCodes := by
      unfold finiteCodes
      omega
    rw [ofUnits, dif_pos hlt]
    rfl

end DocQuery.Double
