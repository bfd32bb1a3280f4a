import Mathlib.Algebra.Order.Field.Power
import Mathlib.Data.Rat.Cast.Order
import Mathlib.Tactic.FieldSimp
import Mathlib.Tactic.Linarith
import Mathlib.Tactic.NormNum
import Mathlib.Tactic.Positivity
import DocQuery.Double.Decimal
import DocQuery.Proofs.Double.Code

/-! The fewest digits read back. The neighbourhoods of two codes have no decimal in common: they meet at
    most in an end point, which belongs to the one with the even code. A grid of seventeen places is fine
    enough for one of its points to lie in the neighbourhood, so the search for the fewest digits ends. -/

namespace DocQuery

/-- The exact value of a decimal. -/
def Decimal.value (d : Decimal) : ℚ := d.digits * 10 ^ d.exponent

namespace Double

variable {c d : Nat}

/-! ### Neighbourhoods -/

namespace Neighbourhood

/-- The number of quarters of a unit lies in the neighbourhood: between its ends, and on them only if the
    neighbourhood is closed. -/
structure Holds (n : Neighbourhood) (q : ℚ) : Prop where
  low_le : n.low ≤ q
  le_high : q ≤ n.high
  closed : q = n.low ∨ q = n.high → n.closed = true

theorem contains_iff {n : Neighbourhood} {num den : Nat} (hden : 0 < den) :
    n.contains num den = true ↔ n.Holds (num / den) := by
  have hpos : (0 : ℚ) < den := Nat.cast_pos.mpr hden
  have hle : ∀ k : Nat, k * den ≤ num ↔ (k : ℚ) ≤ num / den := fun k => by
    rw [le_div_iff₀ hpos]
    exact_mod_cast Iff.rfl
  have hge : ∀ k : Nat, num ≤ k * den ↔ (num / den : ℚ) ≤ k := fun k => by
    rw [div_le_iff₀ hpos]
    exact_mod_cast Iff.rfl
  unfold contains
  split
  · next hc =>
    simp only [Bool.and_eq_true, decide_eq_true_eq, hle, hge]
    exact ⟨fun h => ⟨h.1, h.2, fun _ => hc⟩, fun h => ⟨h.1, h.2⟩⟩
  · next hc =>
    simp only [Bool.and_eq_true, decide_eq_true_eq, ← Nat.not_le, hle, hge, not_le]
    refine ⟨fun h => ⟨h.1.le, h.2.le, fun he => ?_⟩, fun h => ⟨?_, ?_⟩⟩
    · rcases he with he | he
      · exact absurd he h.1.ne'
      · exact absurd he h.2.ne
    · exact lt_of_le_of_ne h.low_le fun he => hc (h.closed (Or.inl he.symm))
    · exact lt_of_le_of_ne h.le_high fun he => hc (h.closed (Or.inr he))

end Neighbourhood

theorem closed_neighbourhood (c : Nat) : (neighbourhood c).closed = true ↔ c % 2 = 0 := by
  have hc := code_eq c
  simp only [neighbourhood, decide_eq_true_eq]
  omega

theorem high_neighbourhood (c : Nat) : (neighbourhood c).high = 4 * unitsOf c + 2 * 2 ^ exponentOf c := by
  simp [neighbourhood, Nat.shiftLeft_eq]

/-- The neighbourhood of a code begins where that of the code before ends. -/
theorem low_neighbourhood_succ (c : Nat) : (neighbourhood (c + 1)).low = (neighbourhood c).high := by
  have he := exponentOf_eq c
  have he' := exponentOf_eq (c + 1)
  have hs' := significandOf_eq (c + 1)
  rw [high_neighbourhood]
  simp only [neighbourhood, unitsOf_succ, Nat.shiftLeft_eq, Nat.one_mul]
  -- At a power of two the step below is half of the step above.
  split
  · have hnext : exponentOf (c + 1) = exponentOf c + 1 := by omega
    rw [hnext, pow_succ]
    omega
  · have hsame : exponentOf (c + 1) = exponentOf c := by omega
    rw [hsame]
    omega

theorem high_neighbourhood_strictMono : StrictMono fun c => (neighbourhood c).high :=
  strictMono_nat_of_lt_succ fun c => by
    have := Nat.two_pow_pos (exponentOf c)
    have := Nat.two_pow_pos (exponentOf (c + 1))
    rw [high_neighbourhood, high_neighbourhood, unitsOf_succ]
    omega

theorem high_le_low (h : c < d) : (neighbourhood c).high ≤ (neighbourhood d).low := by
  obtain ⟨k, rfl⟩ := Nat.exists_eq_add_of_lt h
  rw [low_neighbourhood_succ]
  exact high_neighbourhood_strictMono.monotone (Nat.le_add_right c k)

/-- No number lies in the neighbourhoods of two codes. -/
theorem not_holds_of_lt {q : ℚ} (h : c < d) (hc : (neighbourhood c).Holds q) : ¬(neighbourhood d).Holds q := by
  intro hd
  have hmeet : ((neighbourhood c).high : ℚ) ≤ (neighbourhood d).low := Nat.cast_le.mpr (high_le_low h)
  have hq : q = (neighbourhood c).high := le_antisymm hc.le_high (hmeet.trans hd.low_le)
  have hq' : q = (neighbourhood d).low := le_antisymm (hc.le_high.trans hmeet) hd.low_le
  -- The neighbourhoods meet, so the codes follow each other, and both are even.
  obtain ⟨k, rfl⟩ := Nat.exists_eq_add_of_lt h
  have heq : (neighbourhood (c + k)).high = (neighbourhood c).high := by
    rw [← low_neighbourhood_succ]
    exact Nat.cast_injective (R := ℚ) (hq'.symm.trans hq)
  have hk : c + k = c := high_neighbourhood_strictMono.injective heq
  have hceven := (closed_neighbourhood c).mp (hc.closed (Or.inr hq))
  have hdeven := (closed_neighbourhood _).mp (hd.closed (Or.inl hq'))
  omega

theorem eq_of_holds {q : ℚ} (hc : (neighbourhood c).Holds q) (hd : (neighbourhood d).Holds q) : c = d := by
  rcases Nat.lt_trichotomy c d with h | h | h
  · exact absurd hd (not_holds_of_lt h hc)
  · exact h
  · exact absurd hc (not_holds_of_lt h hd)

/-! ### Grids -/

theorem tenTo_eq (n : Nat) : tenTo n = 10 ^ n := rfl

theorem grid_den_pos (e : Int) : 0 < (grid e).2 := by
  unfold grid
  split
  · exact Nat.one_pos
  · rw [tenTo_eq]
    positivity

theorem grid_step_pos (e : Int) : 0 < (grid e).1 := by
  have hone := one_pos
  unfold grid
  split
  · rw [tenTo_eq]
    positivity
  · positivity

/-- The points of a grid are the multiples of its power of ten. -/
theorem grid_eq (e : Int) : ((grid e).1 : ℚ) / (grid e).2 = 10 ^ e * (4 * one) := by
  unfold grid
  split
  · next h =>
    obtain ⟨n, rfl⟩ := Int.eq_ofNat_of_zero_le h
    simp [tenTo_eq]
  · next h =>
    obtain ⟨n, hn⟩ : ∃ n : Nat, e = -(n : Int) := ⟨(-e).toNat, by omega⟩
    subst hn
    simp [tenTo_eq]
    field_simp

theorem choice_eq_some {α : Type} {p q : Prop} [Decidable p] [Decidable q] {x y z : α}
    (h : (if p then some x else if q then some y else none) = some z) : (p ∧ x = z) ∨ (q ∧ y = z) := by
  split_ifs at h with hp hq
  · exact Or.inl ⟨hp, Option.some.inj h⟩
  · exact Or.inr ⟨hq, Option.some.inj h⟩

theorem onGrid?_eq_some {n : Neighbourhood} {tie : Tie} {e : Int} {d : Decimal} (h : n.onGrid? tie e = some d) :
    n.Holds (d.value * (4 * one)) := by
  have hpoint : ∀ k : Nat, n.contains (k * (grid e).1) (grid e).2 = true →
      n.Holds ((⟨k, e⟩ : Decimal).value * (4 * one)) := fun k hk => by
    rw [Neighbourhood.contains_iff (grid_den_pos e), Nat.cast_mul, mul_div_assoc, grid_eq, ← mul_assoc] at hk
    exact hk
  unfold Neighbourhood.onGrid? at h
  dsimp only at h
  rcases choice_eq_some h with ⟨hk, rfl⟩ | ⟨hk, rfl⟩
  · exact hpoint _ hk
  · exact hpoint _ hk

theorem contains_of_lt {n : Neighbourhood} {num den : Nat} (hlow : n.low * den < num) (hhigh : num < n.high * den) :
    n.contains num den = true := by
  unfold Neighbourhood.contains
  split <;> simp only [Bool.and_eq_true, decide_eq_true_eq] <;> omega

/-- A grid whose step is less than the distance to both ends has a point in the neighbourhood. -/
theorem isSome_onGrid? {n : Neighbourhood} {tie : Tie} {e : Int}
    (hlow : n.low * (grid e).2 + (grid e).1 < n.value * (grid e).2)
    (hhigh : n.value * (grid e).2 + (grid e).1 < n.high * (grid e).2) : (n.onGrid? tie e).isSome = true := by
  obtain ⟨step, den, hgrid⟩ : ∃ step den, grid e = (step, den) := ⟨_, _, rfl⟩
  have hstep : 0 < step := by
    have hpos := grid_step_pos e
    rwa [hgrid] at hpos
  rw [hgrid] at hlow hhigh
  dsimp only at hlow hhigh
  -- The points on both sides of the value are less than a step away, so that both are inside.
  have hbelow : n.value * den / step * step ≤ n.value * den := Nat.div_mul_le_self _ _
  have habove : n.value * den < (n.value * den / step + 1) * step := by
    rw [Nat.mul_comm _ step]
    exact Nat.lt_mul_div_succ _ hstep
  have hsucc : (n.value * den / step + 1) * step = n.value * den / step * step + step := Nat.succ_mul _ _
  have hnear : ∀ k, k = n.value * den / step ∨ k = n.value * den / step + 1 →
      n.contains (k * step) den = true := by
    rintro k (rfl | rfl)
    · exact contains_of_lt (by omega) (by omega)
    · exact contains_of_lt (by omega) (by omega)
  unfold Neighbourhood.onGrid?
  simp only [hgrid]
  rw [if_pos (hnear _ _)]
  · rfl
  · split_ifs
    · exact Or.inl rfl
    · exact Or.inr rfl
    · cases tie
      · dsimp only
        omega
      · exact Or.inr rfl

/-! ### The leading digit -/

theorem reachesTenTo_iff {num den : Nat} (hden : 0 < den) (e : Int) :
    reachesTenTo num den e = true ↔ (10 : ℚ) ^ e ≤ num / den := by
  have hpos : (0 : ℚ) < den := Nat.cast_pos.mpr hden
  unfold reachesTenTo
  rw [le_div_iff₀ hpos]
  split
  · next h =>
    obtain ⟨n, rfl⟩ := Int.eq_ofNat_of_zero_le h
    rw [decide_eq_true_eq, Int.toNat_natCast, zpow_natCast, tenTo_eq]
    exact_mod_cast Iff.rfl
  · next h =>
    obtain ⟨n, rfl⟩ : ∃ n : Nat, e = -(n : Int) := ⟨(-e).toNat, by omega⟩
    have hten : (0 : ℚ) < 10 ^ n := by positivity
    rw [decide_eq_true_eq, neg_neg, Int.toNat_natCast, zpow_neg, zpow_natCast, tenTo_eq, inv_mul_le_iff₀ hten,
      mul_comm (10 ^ n : ℚ)]
    exact_mod_cast Iff.rfl

/-- The estimate of a decimal exponent from a binary one is not too high: `196 / 59` and `93 / 28` are on
    either side of the binary logarithm of ten. -/
theorem ten_zpow_le_two_zpow {t : Int} (hlow : -20000 ≤ t) (hhigh : t ≤ 20000) :
    (10 : ℚ) ^ (t * 30103 / 100000 - 1) ≤ 2 ^ t := by
  -- The floor errs on the low side for exponents of either sign, but by different fractions.
  rcases le_or_gt 0 (t * 30103 / 100000 - 1) with h | h
  · obtain ⟨m, hm⟩ := Int.eq_ofNat_of_zero_le h
    obtain ⟨s, rfl⟩ := Int.eq_ofNat_of_zero_le (show 0 ≤ t by omega)
    have hms : 196 * m ≤ 59 * s := by omega
    have hnat : 10 ^ m ≤ 2 ^ s := by
      rw [← Nat.pow_le_pow_iff_left (show 59 ≠ 0 by decide)]
      calc (10 ^ m) ^ 59 = (10 ^ 59) ^ m := by rw [← pow_mul, ← pow_mul, mul_comm]
        _ ≤ (2 ^ 196) ^ m := Nat.pow_le_pow_left (by norm_num) m
        _ = 2 ^ (196 * m) := (pow_mul ..).symm
        _ ≤ 2 ^ (59 * s) := Nat.pow_le_pow_right (by decide) hms
        _ = (2 ^ s) ^ 59 := by rw [mul_comm, pow_mul]
    rw [hm, zpow_natCast, zpow_natCast]
    exact_mod_cast hnat
  · obtain ⟨m, hm⟩ := Int.eq_ofNat_of_zero_le (show 0 ≤ -(t * 30103 / 100000 - 1) by omega)
    obtain ⟨s, hts, hsm⟩ : ∃ s : Nat, -(s : Int) ≤ t ∧ 28 * s ≤ 93 * m := ⟨(-t).toNat, by omega, by omega⟩
    have hnat : 2 ^ s ≤ 10 ^ m := by
      rw [← Nat.pow_le_pow_iff_left (show 28 ≠ 0 by decide)]
      calc (2 ^ s) ^ 28 = 2 ^ (28 * s) := by rw [← pow_mul, mul_comm]
        _ ≤ 2 ^ (93 * m) := Nat.pow_le_pow_right (by decide) hsm
        _ = (2 ^ 93) ^ m := pow_mul ..
        _ ≤ (10 ^ 28) ^ m := Nat.pow_le_pow_left (by norm_num) m
        _ = (10 ^ m) ^ 28 := by rw [← pow_mul, ← pow_mul, mul_comm]
    have hinv : (10 : ℚ) ^ (-(m : Int)) ≤ 2 ^ (-(s : Int)) := by
      rw [zpow_neg, zpow_neg, zpow_natCast, zpow_natCast]
      exact inv_anti₀ (by positivity) (by exact_mod_cast hnat)
    rw [show t * 30103 / 100000 - 1 = -(m : Int) by omega]
    exact hinv.trans (zpow_le_zpow_right₀ (by norm_num) hts)

theorem two_zpow_le_div {num den : Nat} (hnum : 0 < num) (hden : 0 < den) :
    (2 : ℚ) ^ ((num.log2 : Int) - den.log2 - 1) ≤ num / den := by
  have hlow : (2 : ℚ) ^ num.log2 ≤ num := by exact_mod_cast Nat.log2_self_le hnum.ne'
  have hhigh : (den : ℚ) ≤ 2 ^ (den.log2 + 1) := by exact_mod_cast (Nat.lt_log2_self (n := den)).le
  have hexp : (num.log2 : Int) - den.log2 - 1 = (num.log2 : Int) - (den.log2 + 1 : Nat) := by omega
  rw [hexp, zpow_sub₀ (by norm_num), zpow_natCast, zpow_natCast]
  exact div_le_div₀ (by positivity) hlow (Nat.cast_pos.mpr hden) hhigh

theorem ten_zpow_leadingExponent_le {num den : Nat} (hnum : 0 < num) (hden : 0 < den) (hnum' : num.log2 ≤ 10000)
    (hden' : den.log2 ≤ 10000) : (10 : ℚ) ^ leadingExponent num den ≤ num / den := by
  unfold leadingExponent
  dsimp only
  split_ifs with h₃ h₂ h₁
  · exact (reachesTenTo_iff hden _).mp h₃
  · exact (reachesTenTo_iff hden _).mp h₂
  · exact (reachesTenTo_iff hden _).mp h₁
  · exact (ten_zpow_le_two_zpow (by omega) (by omega)).trans (two_zpow_le_div hnum hden)

/-! ### The fewest digits -/

theorem trimZeros_value (fuel : Nat) (d : Decimal) : (trimZeros fuel d).value = d.value := by
  induction fuel generalizing d with
  | zero => rfl
  | succ fuel ih =>
    unfold trimZeros
    split
    · next h =>
      rw [ih]
      have hdigits : (d.digits : ℚ) = (d.digits / 10 : Nat) * 10 := by
        exact_mod_cast (Nat.div_mul_cancel (Nat.dvd_of_mod_eq_zero h.2)).symm
      rw [Decimal.value, Decimal.value, hdigits, zpow_add_one₀ (by norm_num)]
      ring
    · rfl

theorem low_neighbourhood_le (hpos : 0 < c) : (neighbourhood c).low + 2 ^ exponentOf c ≤ 4 * unitsOf c := by
  -- The lower half of a step may be halved once more, where the exponent changes.
  obtain ⟨d, rfl⟩ := Nat.exists_eq_succ_of_ne_zero hpos.ne'
  have he : exponentOf (d + 1) ≤ exponentOf d + 1 := by
    have := exponentOf_eq d
    have := exponentOf_eq (d + 1)
    omega
  have hpow : 2 ^ exponentOf (d + 1) ≤ 2 * 2 ^ exponentOf d := by
    rw [← pow_succ']
    exact Nat.pow_le_pow_right (by decide) he
  rw [Nat.succ_eq_add_one, low_neighbourhood_succ, high_neighbourhood, unitsOf_succ]
  omega

theorem log2_units_le (hpos : 0 < c) (hc : c < finiteCodes) : (4 * unitsOf c).log2 ≤ 10000 := by
  have hs := significandOf_lt c
  have he : exponentOf c ≤ 2046 := by
    have := exponentOf_eq c
    unfold finiteCodes at hc
    omega
  have hunits := unitsOf_pos_iff.mpr hpos
  have hsig : 0 < 4 * significandOf c := by
    rw [unitsOf_eq] at hunits
    have := Nat.pos_of_mul_pos_right hunits
    omega
  have hlog : (4 * significandOf c).log2 < 55 := (Nat.log2_lt hsig.ne').mpr (by omega)
  rw [unitsOf_eq, ← Nat.mul_assoc, log2_mul_two_pow hsig]
  omega

/-- A step of seventeen places is less than what parts the value from the ends of its neighbourhood. -/
theorem ten_zpow_lt_ulp (hpos : 0 < c) (hc : c < finiteCodes) :
    (10 : ℚ) ^ (leadingExponent (4 * unitsOf c) (4 * one) - 17) * (4 * one) < 2 ^ exponentOf c := by
  have hden : 0 < 4 * one := Nat.mul_pos (by decide) one_pos
  have hlog : (4 * one).log2 ≤ 10000 := by
    rw [one_eq, log2_mul_two_pow (by decide)]
    decide
  have hlead := ten_zpow_leadingExponent_le (Nat.mul_pos (by decide) (unitsOf_pos_iff.mpr hpos)) hden
    (log2_units_le hpos hc) hlog
  generalize leadingExponent (4 * unitsOf c) (4 * one) = lead at *
  rw [le_div_iff₀ (Nat.cast_pos.mpr hden), unitsOf_eq] at hlead
  push_cast at hlead
  have hsig : (significandOf c : ℚ) < 2 ^ 53 := by exact_mod_cast significandOf_lt c
  have hulp : (0 : ℚ) < 2 ^ exponentOf c := by positivity
  -- A value has less than `2 ^ 53` steps, and seventeen places are more than four times as many.
  calc (10 : ℚ) ^ (lead - 17) * (4 * one) = 10 ^ lead * (4 * one) / 10 ^ 17 := by
        rw [zpow_sub₀ (by norm_num)]
        exact div_mul_eq_mul_div ..
    _ ≤ 4 * (significandOf c * 2 ^ exponentOf c) / 10 ^ 17 := div_le_div_of_nonneg_right hlead (by positivity)
    _ < 4 * (2 ^ 53 * 2 ^ exponentOf c) / 10 ^ 17 :=
        div_lt_div_of_pos_right (mul_lt_mul_of_pos_left (mul_lt_mul_of_pos_right hsig hulp) (by norm_num))
          (by positivity)
    _ = 4 * 2 ^ 53 / 10 ^ 17 * 2 ^ exponentOf c := by ring
    _ ≤ 1 * 2 ^ exponentOf c := mul_le_mul_of_nonneg_right (by norm_num) hulp.le
    _ = 2 ^ exponentOf c := one_mul _

/-- The seventeenth digit is fine enough. -/
theorem isSome_seventeenth (tie : Tie) (hpos : 0 < c) (hc : c < finiteCodes) :
    ((neighbourhood c).onGrid? tie (leadingExponent (4 * unitsOf c) (4 * one) - 17)).isSome = true := by
  have hlow := low_neighbourhood_le hpos
  have hhigh := high_neighbourhood c
  have hulp := ten_zpow_lt_ulp hpos hc
  generalize leadingExponent (4 * unitsOf c) (4 * one) - 17 = e at *
  have hden := grid_den_pos e
  have hstep : (grid e).1 < 2 ^ exponentOf c * (grid e).2 := by
    rw [← grid_eq, div_lt_iff₀ (Nat.cast_pos.mpr hden)] at hulp
    exact_mod_cast hulp
  have hvalue : (neighbourhood c).value = 4 * unitsOf c := rfl
  apply isSome_onGrid?
  · calc (neighbourhood c).low * (grid e).2 + (grid e).1
        < (neighbourhood c).low * (grid e).2 + 2 ^ exponentOf c * (grid e).2 := Nat.add_lt_add_left hstep _
      _ = ((neighbourhood c).low + 2 ^ exponentOf c) * (grid e).2 := (Nat.add_mul ..).symm
      _ ≤ (neighbourhood c).value * (grid e).2 := Nat.mul_le_mul_right _ hlow
  · calc (neighbourhood c).value * (grid e).2 + (grid e).1
        < (neighbourhood c).value * (grid e).2 + 2 ^ exponentOf c * (grid e).2 := Nat.add_lt_add_left hstep _
      _ = ((neighbourhood c).value + 2 ^ exponentOf c) * (grid e).2 := (Nat.add_mul ..).symm
      _ ≤ (neighbourhood c).high * (grid e).2 := Nat.mul_le_mul_right _ (by omega)

/-- The shortest decimal reads back. -/
theorem shortest_holds (tie : Tie) (hc : c < finiteCodes) :
    (neighbourhood c).Holds ((shortest tie c).value * (4 * one)) := by
  unfold shortest
  split
  · next hzero =>
    subst hzero
    have hvalue : (⟨0, 0⟩ : Decimal).value * (4 * one) = 0 := by simp [Decimal.value]
    have hlow : (neighbourhood 0).low = 0 := by simp [neighbourhood, unitsOf_zero]
    rw [hvalue]
    exact ⟨by rw [hlow, Nat.cast_zero], Nat.cast_nonneg _, fun _ => (closed_neighbourhood 0).mpr rfl⟩
  · next hne =>
    have hpos : 0 < c := Nat.pos_of_ne_zero hne
    dsimp only
    split
    · next d hd =>
      obtain ⟨e, -, he⟩ := List.exists_of_findSome?_eq_some hd
      rw [trimZeros_value]
      exact onGrid?_eq_some he
    · -- All lengths up to the seventeenth digit were tried, and the seventeenth never fails.
      next hnone =>
      rw [List.findSome?_eq_none_iff] at hnone
      have hmem := hnone (leadingExponent (neighbourhood c).value (4 * one) - 17)
        (List.mem_map.mpr ⟨17, by simp, rfl⟩)
      have hsome := isSome_seventeenth tie hpos hc
      exact absurd hsome (by rw [Option.not_isSome_iff_eq_none]; exact hmem)

end Double

end DocQuery
