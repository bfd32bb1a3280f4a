import Mathlib.Algebra.Order.Field.Rat
import Mathlib.Data.Rat.Cast.Order
import Mathlib.Order.Compare
import Mathlib.Order.WithBot
import Mathlib.Tactic.FieldSimp
import DocQuery.Proofs.Value.Order

/-! Numbers compare by the values that they denote: an integer by itself, a finite double by the rational number that
    the fields of its binary form stand for, with the infinities around these and NaN below all. Nothing is rounded on
    the way, so an integer equals a double iff they denote the same number. -/

namespace DocQuery

/-- The values of numbers in their order. NaN is the bottom, and minus infinity, the rational numbers and infinity lie
    above it. -/
abbrev Exact := WithBot (WithBot (WithTop ℚ))

namespace Exact

def ofRat (q : ℚ) : Exact := ((q : WithTop ℚ) : WithBot (WithTop ℚ))

def minusInfinity : Exact := ((⊥ : WithBot (WithTop ℚ)) : Exact)

theorem strictMono_ofRat : StrictMono ofRat := fun p q h => by
  rw [ofRat, ofRat, WithBot.coe_lt_coe, WithBot.coe_lt_coe, WithTop.coe_lt_coe]
  exact h

theorem bot_lt_minusInfinity : ⊥ < minusInfinity := WithBot.bot_lt_coe _

theorem minusInfinity_lt_ofRat (q : ℚ) : minusInfinity < ofRat q :=
  WithBot.coe_lt_coe.mpr (WithBot.bot_lt_coe _)

theorem ofRat_lt_top (q : ℚ) : ofRat q < ⊤ :=
  WithBot.coe_lt_coe.mpr (WithBot.coe_lt_coe.mpr (WithTop.coe_lt_top q))

end Exact

namespace Double

/-- The magnitude that the exponent and the fraction field of a binary form stand for. -/
def magnitude (code : Nat) : ℚ :=
  let exponent : Nat := code / 2 ^ 52
  let fraction : Nat := code % 2 ^ 52
  if exponent = 0 then fraction * 2 ^ (-1074 : ℤ) else (2 ^ 52 + fraction) * 2 ^ (exponent - 1075 : ℤ)

/-- The value of a double; both zeros have the value 0. -/
def denoted : Double → Exact
  | .nan => ⊥
  | .infinite negative => if negative then Exact.minusInfinity else ⊤
  | .finite negative code => Exact.ofRat (if negative then -magnitude code else magnitude code)

/-- Units count the magnitude exactly. -/
theorem magnitude_eq (code : Nat) : magnitude code = unitsOf code / one := by
  have hone : ((one : Nat) : ℚ)⁻¹ = 2 ^ (-1074 : ℤ) := by
    rw [one_eq, Nat.cast_pow, ← zpow_natCast, ← zpow_neg]
    rfl
  rw [div_eq_mul_inv, hone, magnitude, unitsOf_eq, significandOf_eq, exponentOf_eq]
  -- Subnormal codes have no leading one, and the same exponent as the first codes that have it.
  split_ifs with h
  · have hfraction : code % 2 ^ 52 = code := by omega
    rw [h, hfraction, Nat.zero_sub, Nat.zero_mul, pow_zero, Nat.mul_one, Nat.sub_zero]
  · obtain ⟨k, hk⟩ := Nat.exists_eq_succ_of_ne_zero h
    have hsignificand : code - k * 2 ^ 52 = 2 ^ 52 + code % 2 ^ 52 := by omega
    have hpower : (2 : ℚ) ^ ((k.succ : ℕ) - 1075 : ℤ) = 2 ^ k * 2 ^ (-1074 : ℤ) := by
      rw [← zpow_natCast, ← zpow_add₀ two_ne_zero]
      congr 1
      omega
    rw [hk, Nat.succ_sub_one, hsignificand, hpower]
    generalize (2 : ℚ) ^ (-1074 : ℤ) = least
    push_cast
    ring

/-- Without a fraction field the magnitude is a power of two. -/
theorem magnitude_shiftLeft {exponent : Nat} (h : 0 < exponent) :
    magnitude (exponent <<< 52) = 2 ^ (exponent - 1023 : ℤ) := by
  have hquotient : exponent <<< 52 / 2 ^ 52 = exponent := by
    rw [Nat.shiftLeft_eq, Nat.mul_div_cancel _ (Nat.two_pow_pos 52)]
  have hrest : exponent <<< 52 % 2 ^ 52 = 0 := by rw [Nat.shiftLeft_eq, Nat.mul_mod_left]
  have hpower : (2 : ℚ) ^ (exponent - 1023 : ℤ) = 2 ^ 52 * 2 ^ (exponent - 1075 : ℤ) := by
    have hsum : (exponent - 1023 : ℤ) = 52 + (exponent - 1075) := by omega
    rw [hsum, zpow_add₀ two_ne_zero, zpow_ofNat]
  rw [magnitude, hquotient, hrest, if_neg h.ne', hpower, Nat.cast_zero, add_zero]

end Double

namespace Worth

/-- A place on the scale of numbers stands for a value. -/
inductive Denotes : Worth → Exact → Prop
  | nan : Denotes ⟨0, 0⟩ ⊥
  | minusInfinity : Denotes ⟨1, 0⟩ .minusInfinity
  | finite (units : Int) : Denotes ⟨2, units⟩ (.ofRat (units / Double.one))
  | infinity : Denotes ⟨3, 0⟩ ⊤

theorem denotes_ofInt (n : Int) : (ofInt n).Denotes (.ofRat n) := by
  have h : (n : ℚ) = (n * Double.one : Int) / Double.one := by
    have : (Double.one : ℚ) ≠ 0 := Nat.cast_ne_zero.mpr Double.one_pos.ne'
    push_cast
    field_simp
  rw [h]
  exact .finite _

theorem denotes_worth (x : Double) : x.worth.Denotes x.denoted := by
  cases x with
  | nan => exact .nan
  | infinite negative =>
    cases negative with
    | true => exact .minusInfinity
    | false => exact .infinity
  | finite negative code =>
    have h : (if negative then -Double.magnitude code else Double.magnitude code) =
        (Double.units (.finite negative code) : ℚ) / Double.one := by
      rw [Double.magnitude_eq, Double.units_finite]
      cases negative
      · simp
      · simp [neg_div]
    rw [Double.denoted, h]
    exact .finite _

theorem ofRat_units_lt {m n : Int} (h : m < n) : Exact.ofRat (m / Double.one) < Exact.ofRat (n / Double.one) := by
  have hone : (0 : ℚ) < Double.one := Rat.natCast_pos.mpr Double.one_pos
  exact Exact.strictMono_ofRat (div_lt_div_of_pos_right (Int.cast_lt.mpr h) hone)

/-- Places compare like the values that they stand for. -/
theorem Denotes.compare_eq {a b : Worth} {x y : Exact} (ha : a.Denotes x) (hb : b.Denotes y) :
    a.compare b = cmp x y := by
  -- The four kinds of places are in this order; only finite ones are compared by their units.
  have hbot := Exact.bot_lt_minusInfinity
  have hminus := Exact.minusInfinity_lt_ofRat
  have hplus := Exact.ofRat_lt_top
  have hlt : ∀ {x y : Exact}, x < y → Ordering.lt = cmp x y := fun h => ((cmp_eq_lt_iff _ _).mpr h).symm
  have hgt : ∀ {x y : Exact}, y < x → Ordering.gt = cmp x y := fun h => ((cmp_eq_gt_iff _ _).mpr h).symm
  cases ha with
  | nan =>
    cases hb with
    | nan => rfl
    | minusInfinity => exact hlt hbot
    | finite n => exact hlt (hbot.trans (hminus _))
    | infinity => exact hlt (hbot.trans ((hminus 0).trans (hplus 0)))
  | minusInfinity =>
    cases hb with
    | nan => exact hgt hbot
    | minusInfinity => exact (cmp_self_eq_eq _).symm
    | finite n => exact hlt (hminus _)
    | infinity => exact hlt ((hminus 0).trans (hplus 0))
  | finite m =>
    cases hb with
    | nan => exact hgt (hbot.trans (hminus _))
    | minusInfinity => exact hgt (hminus _)
    | finite n =>
      rw [compare_finite]
      rcases Int.lt_trichotomy m n with h | rfl | h
      · exact (Int.compare_eq_lt.mpr h).trans (hlt (ofRat_units_lt h))
      · exact (Int.compare_eq_eq.mpr rfl).trans (cmp_self_eq_eq _).symm
      · exact (Int.compare_eq_gt.mpr h).trans (hgt (ofRat_units_lt h))
    | infinity => exact hlt (hplus _)
  | infinity =>
    cases hb with
    | nan => exact hgt (hbot.trans ((hminus 0).trans (hplus 0)))
    | minusInfinity => exact hgt ((hminus 0).trans (hplus 0))
    | finite n => exact hgt (hplus _)
    | infinity => rfl

end Worth

namespace Value

/-- The value that a number denotes. -/
def denoted? : Value → Option Exact
  | int n => some (.ofRat n.toInt)
  | double x => some x.denoted
  | _ => none

variable {v w : Value} {a b : Exact}

theorem exists_worth_of_denoted? (h : v.denoted? = some a) : ∃ place, v.worth? = some place ∧ place.Denotes a := by
  cases v with
  | int n =>
    obtain rfl := Option.some.inj h
    exact ⟨_, rfl, Worth.denotes_ofInt _⟩
  | double x =>
    obtain rfl := Option.some.inj h
    exact ⟨_, rfl, Worth.denotes_worth x⟩
  | _ => exact nomatch h

/-- Only the place of an integer stands for it. -/
theorem worth?_of_denoted? {n : Int} (h : v.denoted? = some (.ofRat n)) : v.worth? = some (Worth.ofInt n) := by
  obtain ⟨place, hplace, hdenotes⟩ := exists_worth_of_denoted? h
  have heq : place.compare (Worth.ofInt n) = .eq := by
    rw [hdenotes.compare_eq (Worth.denotes_ofInt n), cmp_self_eq_eq]
  rw [hplace, Std.LawfulEqCmp.eq_of_compare heq]

/-- Numbers compare like the values that they denote, and are equal iff these are the same. -/
theorem compare_denoted (hv : v.denoted? = some a) (hw : w.denoted? = some b) :
    v.compare w = cmp a b ∧ (v.equal w ↔ a = b) := by
  obtain ⟨p, hp, hpa⟩ := exists_worth_of_denoted? hv
  obtain ⟨q, hq, hqb⟩ := exists_worth_of_denoted? hw
  have hcompare : v.compare w = cmp a b := by rw [compare_of_worth hp hq, hpa.compare_eq hqb]
  exact ⟨hcompare, by rw [equal_iff, hcompare, cmp_eq_eq_iff]⟩

/-- The integer `2 ^ 53 + 1` lies above the double `2 ^ 53`, which is the nearest one. -/
theorem compare_denoted_beyond :
    let x := Double.finite false ⟨1076 <<< 52, by decide⟩
    (int 9007199254740993).denoted? = some (.ofRat 9007199254740993) ∧
      (double x).denoted? = some (.ofRat 9007199254740992) ∧ doubleOfInt 9007199254740993 = x ∧
        (int 9007199254740993).compare (double x) = .gt := by
  intro x
  have hint : (int 9007199254740993).denoted? = some (.ofRat 9007199254740993) := by
    have htoInt : (9007199254740993 : Int64).toInt = 9007199254740993 := rfl
    rw [denoted?, htoInt]
    rfl
  have hdouble : (double x).denoted? = some (.ofRat 9007199254740992) := by
    have hmagnitude : Double.magnitude (1076 <<< 52) = 9007199254740992 := by
      rw [Double.magnitude_shiftLeft (by decide)]
      norm_num
    exact congrArg (fun q => some (Exact.ofRat q)) hmagnitude
  have hrounded : doubleOfInt 9007199254740993 = x := by decide +kernel
  have hgt : cmp (Exact.ofRat 9007199254740993) (.ofRat 9007199254740992) = .gt :=
    (cmp_eq_gt_iff _ _).mpr (Exact.strictMono_ofRat (by norm_num))
  exact ⟨hint, hdouble, hrounded, (compare_denoted hint hdouble).1.trans hgt⟩

end Value

end DocQuery
