import DocQuery.Expr.Number
import DocQuery.Proofs.Double.Whole

/-! Numbers rounded in units of a power of ten. A whole double is divided by the unit, rounded to a whole number and
    scaled back; the quotient and the product are rounded to doubles. Up to `2 ^ (52 + k)` and a unit of `10 ^ k` this
    comes to what the rounding makes of the whole number itself. -/

namespace DocQuery

open Double

namespace Double

variable {negative : Bool} {x : Double} {d k : Nat}

/-! ### Powers of ten -/

theorem exists_of_units_pos (h : 0 < x.units) : ∃ b : Fin finiteCodes, x = .finite false b ∧ x.units = unitsOf b := by
  cases x with
  | finite negative b =>
    cases negative with
    | false => exact ⟨b, rfl, rfl⟩
    | true =>
      rw [units_finite, if_pos rfl] at h
      omega
  | _ => exact absurd h (Int.lt_irrefl 0)

theorem isWhole_powNat_ten (hk : k ≤ 20) : ((ofNat 10).powNat k).IsWhole false (10 ^ k) := by
  have hexact : ∀ k < 21, ((ofNat 10).powNat k).units = (10 ^ k * one : Nat) := by decide +kernel
  have hunits := hexact k (Nat.lt_succ_of_le hk)
  have hpos : 0 < ((ofNat 10).powNat k).units := by
    rw [hunits]
    exact Int.natCast_pos.mpr (Nat.mul_pos (Nat.pow_pos (by decide)) one_pos)
  obtain ⟨b, hb, hcode⟩ := exists_of_units_pos hpos
  exact ⟨b, hb, Int.ofNat.inj (hcode.symm.trans hunits)⟩

theorem two_pow_mul_pow_ten_le (hk : k ≤ 20) : 2 ^ 52 * 10 ^ k ≤ one :=
  calc 2 ^ 52 * 10 ^ k ≤ 2 ^ 52 * 10 ^ 20 := Nat.mul_le_mul_left _ (Nat.pow_le_pow_right (by decide) hk)
    _ ≤ one := by decide +kernel

theorem resolved_pow_ten {t : Nat} (ht : t < k) (hk : k ≤ 20) (hdvd : 2 ^ t ∣ d) (hle : d ≤ 2 ^ (53 + t)) :
    Resolved t d (10 ^ k) where
  dvd := hdvd
  le := hle
  dvd_unit := (Nat.pow_dvd_pow 2 ht).trans (pow_dvd_pow_of_dvd (by decide) k)
  lt_unit :=
    calc 2 ^ (t + 1) ≤ 2 ^ k := Nat.pow_le_pow_right (by decide) ht
      _ < 10 ^ k := Nat.pow_lt_pow_left (by decide) (by omega)
  unit_le := two_pow_mul_pow_ten_le hk

/-- What a whole double up to `2 ^ (52 + k)` is a multiple of leaves it 53 bits, and divides half of `10 ^ k`. -/
theorem IsWhole.exists_resolved (hx : x.IsWhole negative d) (hpos : 1 ≤ k) (hk : k ≤ 20) (hd : d ≤ 2 ^ (52 + k)) :
    ∃ t, Resolved t d (10 ^ k) := by
  obtain ⟨c, -, hunits⟩ := hx
  have hsignificand := significandOf_lt c
  rw [unitsOf_eq, one_eq] at hunits
  rcases Nat.le_total (exponentOf c) unitBits with hlow | hhigh
  · have hle : d ≤ significandOf c := by
      refine Nat.le_of_mul_le_mul_right ?_ (Nat.two_pow_pos unitBits)
      rw [← hunits]
      exact Nat.mul_le_mul_left _ (Nat.pow_le_pow_right (by decide) hlow)
    exact ⟨0, resolved_pow_ten (by omega) hk (Nat.one_dvd d) (by omega)⟩
  · obtain ⟨t, ht⟩ := Nat.exists_eq_add_of_le hhigh
    have hsplit : d = significandOf c * 2 ^ t := by
      refine Nat.eq_of_mul_eq_mul_right (Nat.two_pow_pos unitBits) ?_
      rw [← hunits, ht]
      ring
    have hmin : 2 ^ 52 ≤ significandOf c := le_significandOf (by rw [ht]; exact Nat.add_pos_left (by decide) t)
    rcases Nat.lt_or_ge t k with hlt | hge
    · refine ⟨t, resolved_pow_ten hlt hk (Dvd.intro_left _ hsplit.symm) ?_⟩
      rw [hsplit, Nat.pow_add]
      exact Nat.mul_le_mul_right _ hsignificand.le
    · -- Only the power of two itself is as large.
      have hpower : d = 2 ^ (52 + k) := by
        refine Nat.le_antisymm hd ?_
        rw [hsplit, Nat.pow_add]
        exact Nat.mul_le_mul hmin (Nat.pow_le_pow_right (by decide) hge)
      refine ⟨k - 1, resolved_pow_ten (by omega) hk ?_ ?_⟩
      · rw [hpower]
        exact Nat.pow_dvd_pow 2 (by omega)
      · rw [hpower]
        exact Nat.pow_le_pow_right (by decide) (by omega)

/-! ### Roundings to whole numbers -/

/-- A rounding to whole numbers, by what it makes of a quotient of whole numbers. -/
structure RoundsBy (f : Double → Double) (whole : Nat → Nat → Nat) : Prop where
  finite (negative : Bool) (code : Fin finiteCodes) :
    f (.finite negative code) = ofWhole negative (whole (unitsOf code) one)
  quotient {t d u : Nat} (h : Resolved t d u) : whole (unitsOf (nearestCode (d * one) u)) one = whole d u
  le (d : Nat) {u : Nat} (hu : 0 < u) : 2 * (whole d u * u) ≤ 2 * d + u

theorem roundsBy_trunc : RoundsBy trunc (· / ·) where
  finite _ _ := rfl
  quotient h := h.quotient_div_one
  le d u _ := by
    have := Nat.div_mul_le_self d u
    omega

theorem roundsBy_round : RoundsBy round fun d u => (2 * d + u) / (2 * u) where
  finite _ _ := rfl
  quotient h := h.quotient_add_half_div_one
  le d u _ := by
    have := Nat.div_mul_le_self (2 * d + u) (2 * u)
    linarith

theorem unitsOf_quotient_le (d : Nat) (hk : k ≤ 20) :
    unitsOf (nearestCode (d * one) (10 ^ k)) ≤ 2 * d * one := by
  have hten : 0 < 10 ^ k := Nat.pow_pos (by decide)
  rcases Nat.eq_zero_or_pos d with rfl | hpos
  · have hzero := unitsOf_nearestCode_of_dvd (e := 0) (show 0 < 2 ^ 53 by decide) hten
    simp only [Nat.zero_mul] at hzero ⊢
    rw [hzero]
    exact Nat.zero_le _
  · have hquotient : 2 ^ 52 ≤ d * one / 10 ^ k := by
      rw [Nat.le_div_iff_mul_le hten]
      exact Nat.le_trans (two_pow_mul_pow_ten_le hk) (Nat.le_mul_of_pos_left one hpos)
    have herror := (nearestCode_error hten hquotient).1
    have hle := Nat.le_mul_of_pos_right (unitsOf (nearestCode (d * one) (10 ^ k))) hten
    linarith

/-- The quotient of a whole double by a power of ten, rounded to a whole number. -/
theorem RoundsBy.div {f : Double → Double} {whole : Nat → Nat → Nat} (hf : RoundsBy f whole)
    (hx : x.IsWhole negative d) (hd : d ≤ 2 ^ 63) (hk : k ≤ 20) :
    f (x.div ((ofNat 10).powNat k)) = ofWhole negative (whole (unitsOf (nearestCode (d * one) (10 ^ k))) one) := by
  obtain ⟨b, hb, hten⟩ := isWhole_powNat_ten hk
  obtain ⟨c, rfl, hc⟩ := hx
  have hne : b.val ≠ 0 := by
    intro hzero
    rw [hzero, unitsOf_zero] at hten
    exact absurd hten.symm (Nat.mul_pos (Nat.pow_pos (by decide)) one_pos).ne'
  have hcode : nearestCode (unitsOf c * one) (unitsOf b) = nearestCode (d * one) (10 ^ k) := by
    rw [hc, hten, nearestCode_mul_right one_pos]
  have hlt : nearestCode (d * one) (10 ^ k) < finiteCodes :=
    lt_finiteCodes (n := 2 * d) (by omega) (unitsOf_quotient_le d hk)
  have hquotient : (Double.finite negative c).div (.finite false b) =
      .finite negative ⟨nearestCode (d * one) (10 ^ k), hlt⟩ := by
    simp only [Double.div, if_neg hne, ofUnits, hcode, dif_pos hlt, Bool.xor_false]
  rw [hb, hquotient, hf.finite]

end Double

/-! ### Scaling back -/

namespace Number

variable {negative : Bool} {x : Double} {f : Double → Double} {whole : Nat → Nat → Nat} {d k : Nat}

/-- The whole number that the quotient is rounded to is scaled, and the product is rounded to a double. -/
theorem exists_isWhole_atPlaces (hf : RoundsBy f whole) (hx : x.IsWhole negative d) (hd : d ≤ 2 ^ 63) (hpos : 1 ≤ k)
    (hk : k ≤ 20) : ∃ n, (f (x.div ((ofNat 10).powNat k))).IsWhole negative n ∧
      (atPlaces f (-k) x).IsWhole negative (nearestWhole (n * 10 ^ k)) := by
  obtain ⟨w, hw⟩ : ∃ w, whole (unitsOf (nearestCode (d * one) (10 ^ k))) one = w := ⟨_, rfl⟩
  -- The bounds are generous: all that matters is that nothing comes near the end of the doubles.
  have hbound : w ≤ 2 ^ 66 := by
    have hle := hf.le (unitsOf (nearestCode (d * one) (10 ^ k))) Double.one_pos
    have hquotient := unitsOf_quotient_le d hk
    rw [hw] at hle
    have hscaled : 2 * w * one ≤ (4 * d + 1) * one := by linarith
    have := Nat.le_of_mul_le_mul_right hscaled Double.one_pos
    omega
  have hwhole : (f (x.div ((ofNat 10).powNat k))).IsWhole negative (nearestWhole w) := by
    rw [hf.div hx hd hk, hw]
    exact isWhole_ofWhole (Nat.le_trans hbound (Nat.pow_le_pow_right (by decide) (by decide)))
  have hproduct : nearestWhole w * 10 ^ k ≤ 2 ^ 200 :=
    calc nearestWhole w * 10 ^ k ≤ 2 ^ 66 * 10 ^ 20 :=
          Nat.mul_le_mul (nearestWhole_le_two_pow hbound) (Nat.pow_le_pow_right (by decide) hk)
      _ ≤ 2 ^ 200 := by decide
  have hscaled := hwhole.mul (isWhole_powNat_ten hk) hproduct
  have hnegative : ¬(0 : Int) ≤ -k := by omega
  refine ⟨_, hwhole, ?_⟩
  rw [atPlaces, if_neg hnegative, Int.natAbs_neg, Int.natAbs_natCast]
  rwa [Bool.xor_false] at hscaled

/-- A whole double up to `2 ^ (52 + k)` is rounded to `k` places before the point as the whole number is. -/
theorem isWhole_atPlaces (hf : RoundsBy f whole) (hx : x.IsWhole negative d) (hd : d ≤ 2 ^ 63) (hpos : 1 ≤ k)
    (hk : k ≤ 20) (hbits : d ≤ 2 ^ (52 + k)) :
    (atPlaces f (-k) x).IsWhole negative (whole d (10 ^ k) * 10 ^ k) := by
  obtain ⟨t, hresolved⟩ := hx.exists_resolved hpos hk hbits
  obtain ⟨n, hquotient, hresult⟩ := exists_isWhole_atPlaces hf hx hd hpos hk
  rw [hf.div hx hd hk, hf.quotient hresolved] at hquotient
  have hle := hf.le d (u := 10 ^ k) (Nat.pow_pos (by decide))
  have hfactors : 10 ^ k = 5 ^ k * 2 ^ k := by rw [← Nat.mul_pow]
  -- The multiple has 53 bits above the power of two in the power of ten.
  have hodd : whole d (10 ^ k) * 5 ^ k < 2 ^ 53 := by
    have hfive : 5 ^ k < 2 ^ 53 := Nat.lt_of_le_of_lt (Nat.pow_le_pow_right (by decide) hk) (by decide)
    have hscaled : 2 * (whole d (10 ^ k) * 5 ^ k) * 2 ^ k ≤ (2 ^ 53 + 5 ^ k) * 2 ^ k :=
      calc 2 * (whole d (10 ^ k) * 5 ^ k) * 2 ^ k = 2 * (whole d (10 ^ k) * 10 ^ k) := by
            rw [hfactors]
            ring
        _ ≤ 2 * 2 ^ (52 + k) + 5 ^ k * 2 ^ k := by
            rw [← hfactors]
            omega
        _ = (2 ^ 53 + 5 ^ k) * 2 ^ k := by ring
    have := Nat.le_of_mul_le_mul_right hscaled (Nat.two_pow_pos k)
    omega
  have hsmall : whole d (10 ^ k) < 2 ^ 53 :=
    Nat.lt_of_le_of_lt (Nat.le_mul_of_pos_right _ (Nat.pow_pos (by decide))) hodd
  have hn : n = whole d (10 ^ k) := by
    have hwhole : (ofWhole negative (whole d (10 ^ k))).IsWhole negative (nearestWhole (whole d (10 ^ k))) :=
      isWhole_ofWhole (Nat.le_trans hsmall.le (Nat.pow_le_pow_right (by decide) (by decide)))
    rw [nearestWhole_of_lt hsmall] at hwhole
    rw [← hquotient.natAbs_toInt, hwhole.natAbs_toInt]
  have hexact : nearestWhole (whole d (10 ^ k) * 10 ^ k) = whole d (10 ^ k) * 10 ^ k := by
    have hsplit : whole d (10 ^ k) * 10 ^ k = whole d (10 ^ k) * 5 ^ k * 2 ^ k := by
      rw [Nat.mul_assoc, ← hfactors]
    rw [hsplit, nearestWhole_of_bits hodd]
  rwa [hn, hexact] at hresult

end Number

end DocQuery
