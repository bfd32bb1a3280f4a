import DocQuery.Proofs.Double.Overflow
import DocQuery.Proofs.Number.Places

/-! Doubles rounded to decimal places. For places after the point a double is scaled up, and is lost to infinity where
    the product is, although the rounded number itself would be a double. For places before the point it is scaled down,
    rounded and scaled back. All of this keeps the order of magnitudes, so that the greatest double decides: only its own
    scaling back goes beyond the doubles, for some powers of ten. -/

namespace DocQuery

open Double

namespace Double

variable {negative : Bool} {f : Double → Double} {whole : Nat → Nat → Nat} {k : Nat}

/-! ### Powers of ten -/

/-- Powers of ten up to the hundredth are doubles from 1 on, far from where the doubles end. -/
theorem exists_powNat_ten (hk : k ≤ 100) : ∃ b : Fin finiteCodes, (ofNat 10).powNat k = .finite false b ∧
    one ≤ unitsOf b ∧ 10 ^ 208 * unitsOf b < overflow := by
  have hall : ∀ k < 101, (one : Int) ≤ ((ofNat 10).powNat k).units ∧
      10 ^ 208 * ((ofNat 10).powNat k).units < overflow := by decide +kernel
  obtain ⟨hlow, hhigh⟩ := hall k (Nat.lt_succ_of_le hk)
  obtain ⟨b, hb, hcode⟩ := exists_of_units_pos (Int.lt_of_lt_of_le Worth.one_pos hlow)
  rw [hcode] at hlow hhigh
  exact ⟨b, hb, Int.ofNat_le.mp hlow, by exact_mod_cast hhigh⟩

/-! ### Scaling back -/

/-- The greatest double. -/
def greatest : Double := .finite false ⟨finiteCodes - 1, by decide⟩

/-- A rounding to whole numbers that keeps whole numbers, infinities and the order of magnitudes. -/
structure RoundsWithin (f : Double → Double) (whole : Nat → Nat → Nat) : Prop extends RoundsBy f whole where
  infinite (negative : Bool) : f (.infinite negative) = .infinite negative
  whole_mul (n : Nat) {u : Nat} (hu : 0 < u) : whole (n * u) u = n
  mono {d e : Nat} (u : Nat) (h : d ≤ e) : whole d u ≤ whole e u

theorem roundsWithin_trunc : RoundsWithin trunc (· / ·) where
  toRoundsBy := roundsBy_trunc
  infinite _ := rfl
  whole_mul n _ hu := Nat.mul_div_cancel n hu
  mono _ h := Nat.div_le_div_right h

theorem roundsWithin_round : RoundsWithin round fun d u => (2 * d + u) / (2 * u) where
  toRoundsBy := roundsBy_round
  infinite _ := rfl
  whole_mul n u hu := by
    rw [Nat.mul_left_comm, Nat.add_comm, Nat.add_mul_div_right _ _ (by omega), Nat.div_eq_of_lt (by omega), Nat.zero_add]
  mono _ h := Nat.div_le_div_right (by omega)

/-- What the magnitude with this code is scaled back to, before the product is rounded. -/
def scaledBack (whole : Nat → Nat → Nat) (k code : Nat) : Nat :=
  unitsOf (nearestCode (whole (unitsOf (nearestCode (unitsOf code) (10 ^ k))) one * one) 1) * 10 ^ k

/-- The greatest double and the one before it have whole quotients, and only the greatest one is scaled back to where the
    doubles end. -/
theorem quotients_of_greatest : ∀ k ≤ 20,
    (one ∣ unitsOf (nearestCode (unitsOf (finiteCodes - 2)) (10 ^ k)) ∧
      unitsOf (nearestCode (unitsOf (finiteCodes - 2)) (10 ^ k)) * 10 ^ k < overflow) ∧
    one ∣ unitsOf (nearestCode (unitsOf (finiteCodes - 1)) (10 ^ k)) ∧
      (unitsOf (nearestCode (unitsOf (finiteCodes - 1)) (10 ^ k)) * 10 ^ k < overflow ↔ k ∉ [6, 7, 12, 20]) := by
  decide +kernel

namespace RoundsWithin

variable {c c' : Nat}

theorem scaledBack_of_dvd (hf : RoundsWithin f whole) (h : one ∣ unitsOf (nearestCode (unitsOf c) (10 ^ k))) :
    scaledBack whole k c = unitsOf (nearestCode (unitsOf c) (10 ^ k)) * 10 ^ k := by
  obtain ⟨n, hn⟩ := h
  rw [scaledBack, hn, Nat.mul_comm one n, hf.whole_mul n one_pos, Nat.mul_comm n one, ← hn, nearestCode_unitsOf]

theorem scaledBack_mono (hf : RoundsWithin f whole) (h : c ≤ c') : scaledBack whole k c ≤ scaledBack whole k c' := by
  have hquotient := nearestCode_mono (10 ^ k) (unitsOf_strictMono.monotone h)
  have hwhole := Nat.mul_le_mul_right one (hf.mono one (unitsOf_strictMono.monotone hquotient))
  exact Nat.mul_le_mul_right _ (unitsOf_strictMono.monotone (nearestCode_mono 1 hwhole))

theorem scaledBack_lt_overflow_iff (hf : RoundsWithin f whole) (hc : c < finiteCodes) (hk : k ≤ 20) :
    scaledBack whole k c < overflow ↔ (c = finiteCodes - 1 → k ∉ [6, 7, 12, 20]) := by
  obtain ⟨⟨hbefore, hsmall⟩, hlast, hends⟩ := quotients_of_greatest k hk
  -- Scaling back keeps the order, and the last code but one still comes back: only the last can leave.
  rcases Nat.lt_or_ge c (finiteCodes - 1) with hlt | hge
  · have hle := hf.scaledBack_mono (k := k) (Nat.le_sub_one_of_lt hlt)
    rw [Nat.sub_sub, hf.scaledBack_of_dvd hbefore] at hle
    exact iff_of_true (Nat.lt_of_le_of_lt hle hsmall) fun heq => absurd heq hlt.ne
  · obtain rfl : c = finiteCodes - 1 := by omega
    rw [hf.scaledBack_of_dvd hlast, hends]
    exact ⟨fun h _ => h, fun h => h rfl⟩

/-- A double that is rounded to a whole number remains a double. -/
theorem exists_finite (hf : RoundsWithin f whole) (negative : Bool) (c : Fin finiteCodes) : ∃ n : Fin finiteCodes,
    n.val = nearestCode (whole (unitsOf c) one * one) 1 ∧ f (.finite negative c) = .finite negative n := by
  have hlt : whole (unitsOf c) one * one < overflow * 1 := by
    rw [Nat.mul_one]
    exact mul_one_lt_overflow c.isLt (hf.le (unitsOf c) one_pos)
  exact ⟨_, rfl, (hf.finite negative c).trans (ofUnits_of_lt Nat.one_pos hlt)⟩

end RoundsWithin

end Double

/-! ### Places -/

namespace Number

variable {negative : Bool} {f : Double → Double} {whole : Nat → Nat → Nat} {x : Double} {k : Nat} {places : Int}

/-- The number is not scaled to where the doubles end: for places after the point, the product with the power of ten is
    less, and for places before it, the number is not the greatest double, or its quotient is not one of the four that
    are rounded up. -/
def StaysFinite (x : Double) (places : Int) : Prop :=
  if 0 ≤ places then x.units.natAbs * ((ofNat 10).powNat places.natAbs).units.natAbs < overflow * one
  else x.abs = greatest → places ∉ [-6, -7, -12, -20]

theorem natAbs_units (c : Fin finiteCodes) : (units (.finite negative c)).natAbs = unitsOf c := by
  rw [units_finite, natAbs_signed]

/-- After scaling up the rounded number is a double if the product is one, since its quotient is less again. -/
theorem atPlaces_natCast (hf : RoundsWithin f whole) (c : Fin finiteCodes) (hk : k ≤ 100) :
    (StaysFinite (.finite negative c) k → (atPlaces f k (.finite negative c)).isFinite) ∧
      (¬StaysFinite (.finite negative c) k → atPlaces f k (.finite negative c) = .infinite negative) := by
  have hone := Double.one_pos
  obtain ⟨b, hb, hunit, -⟩ := exists_powNat_ten hk
  have hne : b.val ≠ 0 := (unitsOf_pos_iff.mp (Nat.lt_of_lt_of_le hone hunit)).ne'
  have hproduct : (Double.finite negative c).mul (.finite false b) = ofUnits negative (unitsOf c * unitsOf b) one := by
    rw [Double.mul, Bool.xor_false]
  rw [StaysFinite, atPlaces, if_pos (Int.natCast_nonneg k), if_pos (Int.natCast_nonneg k), Int.natAbs_natCast, hb,
    natAbs_units, natAbs_units, hproduct]
  refine ⟨fun hlt => ?_, fun hge => ?_⟩
  · -- The product is a double, and dividing by ten or more cannot take it out again.
    rw [ofUnits_of_lt hone hlt]
    obtain ⟨n, -, hn⟩ := hf.exists_finite negative ⟨_, (nearestCode_lt_finiteCodes_iff hone).mpr hlt⟩
    rw [hn, Double.div, if_neg hne, isFinite_ofUnits_iff (Nat.lt_of_lt_of_le hone hunit)]
    exact unitsOf_mul_one_lt n.isLt hunit
  · rw [ofUnits_of_le hone (Nat.not_lt.mp hge), hf.infinite, Double.div, Bool.xor_false]

/-- Scaled down, every double has a quotient. -/
theorem exists_quotient (negative : Bool) (c : Fin finiteCodes) (hk : k ≤ 20) : ∃ q : Fin finiteCodes,
    q.val = nearestCode (unitsOf c) (10 ^ k) ∧
      (Double.finite negative c).div ((ofNat 10).powNat k) = .finite negative q := by
  have hone := Double.one_pos
  obtain ⟨b, hb, hten⟩ := isWhole_powNat_ten hk
  have hunit : one ≤ unitsOf b := by
    rw [hten]
    exact Nat.le_mul_of_pos_left one (Nat.pow_pos (by decide))
  have hpos : 0 < unitsOf b := Nat.lt_of_lt_of_le hone hunit
  have hlt := unitsOf_mul_one_lt c.isLt hunit
  refine ⟨⟨_, (nearestCode_lt_finiteCodes_iff hpos).mpr hlt⟩, ?_, ?_⟩
  · rw [← nearestCode_mul_right hone (unitsOf c), ← hten]
  · rw [hb, Double.div, if_neg (unitsOf_pos_iff.mp hpos).ne', Bool.xor_false, ofUnits_of_lt hpos hlt]

/-- What the quotient is rounded to is scaled back. -/
theorem atPlaces_neg (hf : RoundsWithin f whole) (c : Fin finiteCodes) (hpos : 1 ≤ k) (hk : k ≤ 20) :
    atPlaces f (-k) (.finite negative c) = ofUnits negative (scaledBack whole k c * one) one := by
  obtain ⟨q, hq, hquotient⟩ := exists_quotient negative c hk
  obtain ⟨n, hn, hwhole⟩ := hf.exists_finite negative q
  obtain ⟨b, hb, hten⟩ := isWhole_powNat_ten hk
  have hnegative : ¬(0 : Int) ≤ -k := by omega
  rw [atPlaces, if_neg hnegative, Int.natAbs_neg, Int.natAbs_natCast, hquotient, hwhole, hb, Double.mul, Bool.xor_false,
    hten, scaledBack, ← hq, ← hn, Nat.mul_assoc]

theorem abs_eq_greatest_iff (c : Fin finiteCodes) :
    (Double.finite negative c).abs = greatest ↔ c.val = finiteCodes - 1 := by
  constructor
  · intro h
    injection h with _ hcode
    exact congrArg Fin.val hcode
  · exact fun h => congrArg (Double.finite false) (Fin.ext h)

theorem staysFinite_neg_iff (hf : RoundsWithin f whole) (c : Fin finiteCodes) (hpos : 1 ≤ k) (hk : k ≤ 20) :
    StaysFinite (.finite negative c) (-k) ↔ scaledBack whole k c < overflow := by
  have hnegative : ¬(0 : Int) ≤ -k := by omega
  have hplaces : (-k : Int) ∉ ([-6, -7, -12, -20] : List Int) ↔ k ∉ [6, 7, 12, 20] := by
    simp only [List.mem_cons, List.not_mem_nil, or_false]
    omega
  rw [StaysFinite, if_neg hnegative, hf.scaledBack_lt_overflow_iff c.isLt hk, abs_eq_greatest_iff, hplaces]

/-- A rounding to places gives a double where the number is not scaled to where the doubles end, and else an infinity. -/
theorem atPlaces_finite (hf : RoundsWithin f whole) (hx : x.isFinite) (hlow : -20 ≤ places) (hhigh : places ≤ 100) :
    (StaysFinite x places → (atPlaces f places x).isFinite) ∧
      (¬StaysFinite x places → atPlaces f places x = .infinite x.isNegative) := by
  cases x with
  | finite negative c =>
    rcases Int.lt_or_le places 0 with hneg | hnonneg
    · obtain ⟨k, rfl⟩ : ∃ k : Nat, places = -k := ⟨places.natAbs, by omega⟩
      have hone := Double.one_pos
      rw [atPlaces_neg hf c (by omega) (by omega), staysFinite_neg_iff hf c (by omega) (by omega),
        isFinite_ofUnits_iff hone, Nat.mul_lt_mul_right hone]
      exact ⟨id, fun hge => ofUnits_of_le hone (Nat.mul_le_mul_right one (Nat.not_lt.mp hge))⟩
    · obtain ⟨k, rfl⟩ := Int.eq_ofNat_of_zero_le hnonneg
      exact atPlaces_natCast hf c (by omega)
  | _ => exact nomatch hx

/-- Up to `10 ^ 208` there is room for all places. -/
theorem staysFinite_of_le (hsmall : x.units.natAbs ≤ 10 ^ 208 * one) (hhigh : places ≤ 100) : StaysFinite x places := by
  rw [StaysFinite]
  split
  · next hnonneg =>
    obtain ⟨b, hb, -, hroom⟩ := exists_powNat_ten (k := places.natAbs) (by omega)
    rw [hb, natAbs_units]
    calc x.units.natAbs * unitsOf b ≤ 10 ^ 208 * one * unitsOf b := Nat.mul_le_mul_right _ hsmall
      _ = 10 ^ 208 * unitsOf b * one := Nat.mul_right_comm ..
      _ < overflow * one := Nat.mul_lt_mul_of_pos_right hroom Double.one_pos
  · -- To the left of the point only the greatest double is in danger, and it is far above the bound.
    intro hgreatest
    have hlarge : 10 ^ 208 * one < greatest.units.natAbs := by decide +kernel
    have habs : x.abs.units.natAbs = x.units.natAbs := by
      cases x with
      | finite negative c => rw [Double.abs, natAbs_units, natAbs_units]
      | _ => rfl
    rw [← hgreatest, habs] at hlarge
    exact absurd hsmall (Nat.not_le.mpr hlarge)

theorem toPlaces_double (operator : String) (f : Double → Double) (hx : x.isFinite) {w : Value} {places : Int64}
    (hw : w.toInt? = some places) (hlow : -20 ≤ places.toInt) (hhigh : places.toInt ≤ 100) :
    toPlaces operator f [.double x, w] = .ok (.double (atPlaces f places.toInt x)) := by
  have hrange : ¬(places.toInt < -20 ∨ 100 < places.toInt) := by omega
  have hnumber : (Value.double x).isNullish = false := rfl
  simp [toPlaces, hnumber, Value.isNullish_of_toInt? hw, Value.expectInt_of_toInt? operator hw, hrange, hx, bind,
    Except.bind, pure, Except.pure]

end Number

/-! ### Expressions -/

namespace Expr

open Number

variable {e p : Value} {s : Scope} {x : Double} {places : Int64}

/-- A double is truncated and rounded to places as a double iff it is not scaled to where the doubles end; else it becomes
    an infinity of the same sign. Up to `10 ^ 208` there is room for all places. -/
theorem roundingTo_finite_iff (he : evaluate e s = .ok (.double x)) (hx : x.isFinite) (hp : ComesToInt p s places)
    (hlow : -20 ≤ places.toInt) (hhigh : places.toInt ≤ 100) :
    (∃ truncated, evaluate (roundingTo "$trunc" e p) s = .ok (.double truncated) ∧
      (StaysFinite x places.toInt → truncated.isFinite) ∧
      (¬StaysFinite x places.toInt → truncated = .infinite x.isNegative)) ∧
    (∃ rounded, evaluate (roundingTo "$round" e p) s = .ok (.double rounded) ∧
      (StaysFinite x places.toInt → rounded.isFinite) ∧
      (¬StaysFinite x places.toInt → rounded = .infinite x.isNegative)) ∧
    (x.units.natAbs ≤ 10 ^ 208 * Double.one → StaysFinite x places.toInt) := by
  obtain ⟨w, hp, hw⟩ := hp
  refine ⟨⟨_, ?_, atPlaces_finite roundsWithin_trunc hx hlow hhigh⟩,
    ⟨_, ?_, atPlaces_finite roundsWithin_round hx hlow hhigh⟩, fun hsmall => staysFinite_of_le hsmall hhigh⟩
  · rw [evaluate_roundingTo rfl rfl he hp, toPlaces_double "$trunc" _ hx hw hlow hhigh]
  · rw [evaluate_roundingTo rfl rfl he hp, toPlaces_double "$round" _ hx hw hlow hhigh]

/-- The greatest double is truncated to hundreds of thousands as a double, and to millions as infinity. -/
theorem roundingTo_finite_iff_greatest :
    let e := Value.double Double.greatest
    let s : Scope := { root := .null }
    (evaluate e s = .ok (.double Double.greatest) ∧ Double.greatest.isFinite ∧ ComesToInt (.int (-5)) s (-5) ∧
      ComesToInt (.int (-6)) s (-6)) ∧
    (∃ truncated, evaluate (roundingTo "$trunc" e (.int (-5))) s = .ok (.double truncated) ∧ truncated.isFinite) ∧
      evaluate (roundingTo "$trunc" e (.int (-6))) s = .ok (.double (.infinite false)) := by
  intro e s
  have hfive := comesToInt_int (-5) s
  have hsix := comesToInt_int (-6) s
  have hstays : StaysFinite Double.greatest (-5 : Int64).toInt := fun _ => by decide +kernel
  have hleaves : ¬StaysFinite Double.greatest (-6 : Int64).toInt := fun h => absurd (h rfl) (by decide +kernel)
  obtain ⟨⟨truncated, htruncated, hfinite, -⟩, -⟩ := roundingTo_finite_iff (e := e) (s := s) rfl rfl hfive
    (by decide +kernel) (by decide +kernel)
  obtain ⟨⟨_, hinfinite, -, hsign⟩, -⟩ := roundingTo_finite_iff (e := e) (s := s) rfl rfl hsix
    (by decide +kernel) (by decide +kernel)
  rw [hsign hleaves] at hinfinite
  exact ⟨⟨rfl, rfl, hfive, hsix⟩, ⟨truncated, htruncated, hfinite hstays⟩, hinfinite⟩

/-- A whole number with 300 zeros is lost to infinity when it is scaled up to ten decimal places. -/
theorem not_roundingTo_finite : ¬∀ (x : Double) (places : Int64), x.isFinite → -20 ≤ places.toInt → places.toInt ≤ 100 →
    let s : Scope := { root := .object [] }
    (∃ rounded, evaluate (roundingTo "$round" (.double x) (.int places)) s = .ok (.double rounded) ∧ rounded.isFinite) ∧
      ∃ truncated, evaluate (roundingTo "$trunc" (.double x) (.int places)) s = .ok (.double truncated) ∧
        truncated.isFinite := by
  intro h
  have hx : (Double.ofDecimal false 1 300).isFinite := by decide +kernel
  obtain ⟨-, truncated, htruncated, hfinite⟩ := h (Double.ofDecimal false 1 300) 10 hx (by decide +kernel)
    (by decide +kernel)
  have hinfinite : atPlaces Double.trunc (10 : Int64).toInt (Double.ofDecimal false 1 300) = .infinite false := by
    decide +kernel
  rw [evaluate_roundingTo rfl rfl rfl rfl, toPlaces_double "$trunc" _ hx rfl (by decide +kernel) (by decide +kernel),
    hinfinite, Except.ok.injEq, Value.double.injEq] at htruncated
  rw [← htruncated] at hfinite
  exact nomatch hfinite

end Expr

end DocQuery
