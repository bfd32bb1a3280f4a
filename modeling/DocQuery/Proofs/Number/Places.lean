import DocQuery.Proofs.Expr.Applied
import DocQuery.Proofs.Filter.Remainder
import DocQuery.Proofs.Number.Scaled

/-! Integers rounded to tens, hundreds and so on. An integer becomes a double, which is divided by a power of ten,
    rounded and scaled back. A multiple of the power is the result iff it is a double and the rounded quotient is right.
    Up to `2 ^ (52 + k)`, where `k` digits are dropped, the result is the multiple that the double has to become; so it
    is the right one for the integer iff the integer and its double have the same multiple, as they have up to
    `2 ^ 53`. -/

namespace DocQuery

variable {unit i m n : Int}

/-! ### Multiples of a unit -/

/-- The multiple of the unit that is closest to `i` among those that are not farther from zero. -/
structure IsTruncation (unit i m : Int) : Prop where
  multiple : unit ∣ m
  within : m.natAbs ≤ i.natAbs
  closest (n : Int) : unit ∣ n → n.natAbs ≤ i.natAbs → (i - m).natAbs ≤ (i - n).natAbs

/-- The multiple of the unit that is nearest to `i`, and of two such multiples the one farther from zero. -/
structure IsRounding (unit i m : Int) : Prop where
  multiple : unit ∣ m
  nearest (n : Int) : unit ∣ n → (i - m).natAbs ≤ (i - n).natAbs
  away (n : Int) : unit ∣ n → (i - n).natAbs = (i - m).natAbs → n.natAbs ≤ m.natAbs

theorem IsTruncation.unique (h : IsTruncation unit i m) (h' : IsTruncation unit i n) : m = n := by
  have hm := h.closest n h'.multiple h'.within
  have hn := h'.closest m h.multiple h.within
  have hmi := h.within
  have hni := h'.within
  omega

theorem IsRounding.unique (h : IsRounding unit i m) (h' : IsRounding unit i n) : m = n := by
  have hm := h.nearest n h'.multiple
  have hn := h'.nearest m h.multiple
  have hmaway := h.away n h'.multiple (by omega)
  have hnaway := h'.away m h.multiple (by omega)
  have hzero := h.nearest 0 (Int.dvd_zero unit)
  omega

theorem IsTruncation.neg (h : IsTruncation unit i m) : IsTruncation unit (-i) (-m) where
  multiple := (Int.dvd_neg).mpr h.multiple
  within := by
    have := h.within
    omega
  closest n hn hle := by
    have := h.closest (-n) ((Int.dvd_neg).mpr hn) (by omega)
    omega

theorem IsRounding.neg (h : IsRounding unit i m) : IsRounding unit (-i) (-m) where
  multiple := (Int.dvd_neg).mpr h.multiple
  nearest n hn := by
    have := h.nearest (-n) ((Int.dvd_neg).mpr hn)
    omega
  away n hn heq := by
    have := h.away (-n) ((Int.dvd_neg).mpr hn) (by omega)
    omega

theorem isTruncation_natCast (d u : Nat) : IsTruncation u d (d / u * u : Nat) where
  multiple := Int.natCast_dvd_natCast.mpr (Nat.dvd_mul_left u _)
  within := by
    have := Nat.div_mul_le_self d u
    omega
  closest n hn hle := by
    have hdvd : u ∣ n.natAbs := Int.natCast_dvd.mp hn
    have hbound : n.natAbs ≤ d / u * u := by
      rw [← Nat.div_mul_cancel hdvd]
      exact Nat.mul_le_mul_right u (Nat.div_le_div_right hle)
    have := Nat.div_mul_le_self d u
    omega

theorem isRounding_natCast (d : Nat) {u : Nat} (hu : 0 < u) : IsRounding u d ((2 * d + u) / (2 * u) * u : Nat) := by
  generalize hw : (2 * d + u) / (2 * u) = w
  have hlow : 2 * (w * u) ≤ 2 * d + u := by
    have := Nat.div_mul_le_self (2 * d + u) (2 * u)
    rw [hw] at this
    linarith
  have hhigh : 2 * d + u < 2 * (w * u) + 2 * u := by
    have := Nat.lt_div_mul_add (a := 2 * d + u) (show 0 < 2 * u by omega)
    rw [hw] at this
    linarith
  have hmultiple : (u : Int) ∣ (w * u : Nat) := Int.natCast_dvd_natCast.mpr (Nat.dvd_mul_left u w)
  -- Any other multiple is at least one unit away, so that it is not nearer.
  have hother : ∀ n : Int, (u : Int) ∣ n → n = (w * u : Nat) ∨ n + u ≤ (w * u : Nat) ∨ (w * u : Nat) + (u : Int) ≤ n := by
    intro n hn
    rcases lt_trichotomy n (w * u : Nat) with hlt | heq | hgt
    · have := Int.le_of_dvd (sub_pos.mpr hlt) (Int.dvd_sub hmultiple hn)
      omega
    · exact .inl heq
    · have := Int.le_of_dvd (sub_pos.mpr hgt) (Int.dvd_sub hn hmultiple)
      omega
  refine ⟨hmultiple, fun n hn => ?_, fun n hn heq => ?_⟩
  · rcases hother n hn with h | h | h <;> omega
  · rcases hother n hn with h | h | h <;> omega

/-! ### Doubles of integers -/

theorem clampDouble_of_isWhole {x : Double} {negative : Bool} {n : Nat} (h : x.IsWhole negative n) :
    clampDouble x = clampInt64 (if negative then -(n : Int) else n) := by
  have htoInt := h.toInt_eq
  obtain ⟨code, rfl, -⟩ := h
  rw [← htoInt]
  rfl

/-- Multiples of ten are not at the ends of the 64 bits. -/
theorem clampInt64_eq_iff {m : Int64} (h : 10 ∣ m.toInt) : clampInt64 n = m ↔ n = m.toInt := by
  constructor
  · rintro rfl
    rw [toInt_clampInt64] at h ⊢
    omega
  · rintro rfl
    exact clampInt64_toInt m

section DoubleOfInt

variable (i : Int64)

theorem natAbs_toInt_le_two_pow : i.toInt.natAbs ≤ 2 ^ 63 := by
  have := i.le_toInt
  have := i.toInt_lt
  omega

theorem natAbs_toInt_doubleOfInt : (doubleOfInt i).toInt.natAbs = Double.nearestWhole i.toInt.natAbs :=
  (Double.isWhole_ofInt (Nat.le_trans (natAbs_toInt_le_two_pow i) (by decide))).natAbs_toInt

theorem isWhole_doubleOfInt : (doubleOfInt i).IsWhole (i.toInt < 0) (doubleOfInt i).toInt.natAbs := by
  rw [natAbs_toInt_doubleOfInt]
  exact Double.isWhole_ofInt (Nat.le_trans (natAbs_toInt_le_two_pow i) (by decide))

variable {i}

theorem natAbs_toInt_doubleOfInt_le {e : Nat} (h : i.toInt.natAbs ≤ 2 ^ e) :
    (doubleOfInt i).toInt.natAbs ≤ 2 ^ e := by
  rw [natAbs_toInt_doubleOfInt]
  exact Double.nearestWhole_le_two_pow h

theorem toInt_doubleOfInt_eq_iff :
    (doubleOfInt i).toInt = i.toInt ↔ Double.nearestWhole i.toInt.natAbs = i.toInt.natAbs :=
  Double.toInt_ofInt_eq_iff (Nat.le_trans (natAbs_toInt_le_two_pow i) (by decide))

theorem toInt_doubleOfInt_of_le (h : i.toInt.natAbs ≤ 2 ^ 53) : (doubleOfInt i).toInt = i.toInt := by
  rw [toInt_doubleOfInt_eq_iff]
  rcases Nat.lt_or_eq_of_le h with hlt | heq
  · exact Double.nearestWhole_of_lt hlt
  · have hpower := Double.nearestWhole_of_bits (e := 53) (show 1 < 2 ^ 53 by decide)
    rwa [Nat.one_mul, ← heq] at hpower

end DoubleOfInt

/-! ### Places before the point -/

namespace Number

open Double

variable {f : Double → Double} {whole : Nat → Nat → Nat} {i places : Int64} {k : Nat}

/-- What an operator for roundings makes of an integer and a negative number of places. -/
theorem toPlaces_int (operator : String) (f : Double → Double) (i : Int64) (hplaces : places.toInt = -k) (hpos : 1 ≤ k)
    (hk : k ≤ 20) : toPlaces operator f [.int i, .int places] =
      .ok (.int (clampDouble (atPlaces f (-k) (doubleOfInt i)))) := by
  have hrange : ¬(places.toInt < -20 ∨ 100 < places.toInt) := by omega
  have hnegative : ¬0 ≤ places.toInt := by omega
  rw [← hplaces]
  simp [toPlaces, Value.isNullish, Value.expectInt, Value.toInt?, hrange, hnegative, bind, Except.bind, pure, Except.pure]

/-- A multiple of the power of ten is the result iff it is a double, and its quotient is what the quotient of the
    doubles is rounded to. -/
theorem toPlaces_eq_iff (hf : RoundsBy f whole) (operator : String) (hplaces : places.toInt = -k) (hpos : 1 ≤ k)
    (hk : k ≤ 20) {m : Int64} (hm : 10 ^ k ∣ m.toInt) : toPlaces operator f [.int i, .int places] = .ok (.int m) ↔
      (f ((doubleOfInt i).div ((ofNat 10).powNat k))).toInt * 10 ^ k = m.toInt ∧ (doubleOfInt m).toInt = m.toInt := by
  have hd := natAbs_toInt_doubleOfInt_le (natAbs_toInt_le_two_pow i)
  obtain ⟨n, hquotient, hresult⟩ := exists_isWhole_atPlaces hf (isWhole_doubleOfInt i) hd hpos hk
  have hten : 10 ∣ m.toInt := (dvd_pow_self 10 (by omega)).trans hm
  have hunit : ((10 ^ k : Nat) : Int) = 10 ^ k := by rw [Nat.cast_pow]; rfl
  rw [toPlaces_int operator f i hplaces hpos hk, Except.ok.injEq, Value.int.injEq, clampDouble_of_isWhole hresult,
    clampInt64_eq_iff hten, hquotient.toInt_eq, toInt_doubleOfInt_eq_iff, ← hunit]
  rw [← hunit, Int.natCast_dvd] at hm
  obtain ⟨c, hc⟩ := hm
  rw [Nat.mul_comm] at hc
  generalize decide (i.toInt < 0) = negative
  constructor
  · intro hresult
    have hmagnitude : nearestWhole (n * 10 ^ k) = c * 10 ^ k := by
      rw [← hc, ← hresult, natAbs_signed]
    -- Scaling by the power of ten may round the product, but not from one multiple to another.
    obtain rfl := eq_of_nearestWhole_mul_pow_ten hquotient.nearestWhole_eq hmagnitude
    rw [hmagnitude] at hresult
    rw [hc, ← hresult]
    refine ⟨?_, hmagnitude⟩
    split <;> push_cast <;> ring
  · rintro ⟨hscaled, hexact⟩
    have hmagnitude : m.toInt.natAbs = n * 10 ^ k := by
      rw [← hscaled, Int.natAbs_mul, Int.natAbs_natCast, natAbs_signed]
    rw [hmagnitude] at hexact
    rw [hexact, ← hscaled]
    split <;> push_cast <;> ring

/-- Up to `2 ^ (52 + k)` the result is what the operator is to make of the double, or the nearest integer of 64 bits. -/
theorem exists_toPlaces (Meets : Int → Int → Prop) (hf : RoundsBy f whole)
    (hmeets : ∀ d : Nat, Meets d (whole d (10 ^ k) * 10 ^ k : Nat)) (hneg : ∀ {i m : Int}, Meets i m → Meets (-i) (-m))
    (operator : String) (hplaces : places.toInt = -k) (hpos : 1 ≤ k) (hk : k ≤ 20)
    (hi : i.toInt.natAbs ≤ 2 ^ (52 + k)) : ∃ m, Meets (doubleOfInt i).toInt m ∧
      toPlaces operator f [.int i, .int places] = .ok (.int (clampInt64 m)) := by
  have hwhole := isWhole_doubleOfInt i
  have hd := natAbs_toInt_doubleOfInt_le (natAbs_toInt_le_two_pow i)
  have hresult := clampDouble_of_isWhole (isWhole_atPlaces hf hwhole hd hpos hk (natAbs_toInt_doubleOfInt_le hi))
  rw [toPlaces_int operator f i hplaces hpos hk, hresult]
  refine ⟨_, ?_, rfl⟩
  have htoInt := hwhole.toInt_eq
  have hd := hmeets (doubleOfInt i).toInt.natAbs
  generalize (doubleOfInt i).toInt.natAbs = d at htoInt hd ⊢
  rw [htoInt]
  split
  · exact hneg hd
  · exact hd

end Number

/-! ### Expressions -/

namespace Expr

open Number

variable {e p : Value} {s : Scope} {i places : Int64} {k : Nat}

/-- The expression that applies an operator for roundings to a number and to places. -/
def roundingTo (operator : String) (e p : Value) : Value := .object [(operator, .array [e, p])]

theorem evaluate_roundingTo {operator : String} {f : Double → Double} (hname : isOperatorName operator)
    (hoperator : operator? operator = some (.variadic (toPlaces operator f))) {v w : Value}
    (he : evaluate e s = .ok v) (hp : evaluate p s = .ok w) :
    evaluate (roundingTo operator e p) s = toPlaces operator f [v, w] :=
  evaluate_variadic hname hoperator (.cons he (.cons hp .nil))

/-- A rounding to tens, hundreds and so on is right for an integer iff the right multiple is a double and its quotient
    is what the quotient of the doubles is rounded to. Up to `2 ^ (52 + k)`, where `k` digits before the point are
    dropped, the truncation is that of the nearest double, and the rounding is, too, or it is cut to 64 bits; so they
    are right iff the integer and its double have the same one. Up to `2 ^ 53` the double is the integer. -/
theorem roundingTo_exact_iff (he : evaluate e s = .ok (.int i)) (hp : evaluate p s = .ok (.int places))
    (hplaces : places.toInt = -k) (hpos : 1 ≤ k) (hk : k ≤ 20) :
    let quotient := (doubleOfInt i).div ((Double.ofNat 10).powNat k)
    let truncated := evaluate (roundingTo "$trunc" e p) s
    let rounded := evaluate (roundingTo "$round" e p) s
    (∀ m : Int64, IsTruncation (10 ^ k) i.toInt m.toInt → (truncated = .ok (.int m) ↔
      quotient.trunc.toInt * 10 ^ k = m.toInt ∧ (doubleOfInt m).toInt = m.toInt)) ∧
    (∀ m : Int64, IsRounding (10 ^ k) i.toInt m.toInt → (rounded = .ok (.int m) ↔
      quotient.round.toInt * 10 ^ k = m.toInt ∧ (doubleOfInt m).toInt = m.toInt)) ∧
    (i.toInt.natAbs ≤ 2 ^ (52 + k) →
      (∃ m : Int64, IsTruncation (10 ^ k) (doubleOfInt i).toInt m.toInt ∧ truncated = .ok (.int m)) ∧
      (∃ m, IsRounding (10 ^ k) (doubleOfInt i).toInt m ∧ rounded = .ok (.int (clampInt64 m))) ∧
      (∀ m : Int64, IsTruncation (10 ^ k) i.toInt m.toInt → (truncated = .ok (.int m) ↔
        IsTruncation (10 ^ k) (doubleOfInt i).toInt m.toInt)) ∧
      ∀ m : Int64, IsRounding (10 ^ k) i.toInt m.toInt → (rounded = .ok (.int m) ↔
        IsRounding (10 ^ k) (doubleOfInt i).toInt m.toInt)) ∧
    (i.toInt.natAbs ≤ 2 ^ 53 → (doubleOfInt i).toInt = i.toInt) := by
  intro quotient truncated rounded
  have htruncated : truncated = toPlaces "$trunc" .trunc [.int i, .int places] := evaluate_roundingTo rfl rfl he hp
  have hrounded : rounded = toPlaces "$round" .round [.int i, .int places] := evaluate_roundingTo rfl rfl he hp
  have hunit : ((10 ^ k : Nat) : Int) = 10 ^ k := by rw [Nat.cast_pow]; rfl
  have hten : (10 : Int) ∣ 10 ^ k := dvd_pow_self 10 (by omega)
  rw [htruncated, hrounded]
  refine ⟨fun m hm => toPlaces_eq_iff Double.roundsBy_trunc "$trunc" hplaces hpos hk hm.multiple,
    fun m hm => toPlaces_eq_iff Double.roundsBy_round "$round" hplaces hpos hk hm.multiple, fun hi => ?_,
    toInt_doubleOfInt_of_le⟩
  obtain ⟨m, hm, htrunc⟩ := exists_toPlaces (IsTruncation (10 ^ k)) Double.roundsBy_trunc
    (fun d => hunit ▸ isTruncation_natCast d (10 ^ k)) IsTruncation.neg "$trunc" hplaces hpos hk hi
  obtain ⟨r, hr, hround⟩ := exists_toPlaces (IsRounding (10 ^ k)) Double.roundsBy_round
    (fun d => hunit ▸ isRounding_natCast d (Nat.pow_pos (by decide))) IsRounding.neg "$round" hplaces hpos hk hi
  rw [htrunc, hround]
  -- A truncation is not farther from zero than a double up to `2 ^ 63`, and `2 ^ 63` is no multiple of ten.
  have hfits : (clampInt64 m).toInt = m := by
    have hbound := natAbs_toInt_doubleOfInt_le (natAbs_toInt_le_two_pow i)
    have hwithin := hm.within
    have hmultiple := hten.trans hm.multiple
    rw [toInt_clampInt64]
    omega
  refine ⟨⟨clampInt64 m, hfits.symm ▸ hm, rfl⟩, ⟨r, hr, rfl⟩, fun n hn => ?_, fun n hn => ?_⟩
  · rw [Except.ok.injEq, Value.int.injEq, clampInt64_eq_iff (hten.trans hn.multiple)]
    exact ⟨fun h => h ▸ hm, hm.unique⟩
  · rw [Except.ok.injEq, Value.int.injEq, clampInt64_eq_iff (hten.trans hn.multiple)]
    exact ⟨fun h => h ▸ hr, hr.unique⟩

/-- A debt of 1250 is truncated to 1200, and half a hundred is rounded away from zero. -/
theorem roundingTo_exact_iff_debt :
    let e := Value.int (-1250)
    let p := Value.int (-2)
    let s : Scope := { root := .null }
    (evaluate e s = .ok (.int (-1250)) ∧ evaluate p s = .ok (.int (-2)) ∧ (-2 : Int64).toInt = -(2 : Nat) ∧
      (-1250 : Int64).toInt.natAbs ≤ 2 ^ 53) ∧
      evaluate (roundingTo "$trunc" e p) s = .ok (.int (-1200)) ∧
      evaluate (roundingTo "$round" e p) s = .ok (.int (-1300)) := by
  intro e p s
  have hi : (-1250 : Int64).toInt = -1250 := by decide +kernel
  have hm : (-1200 : Int64).toInt = -1200 := by decide +kernel
  have hr : (-1300 : Int64).toInt = -1300 := by decide +kernel
  have htrunc : IsTruncation (10 ^ 2) (-1250 : Int64).toInt (-1200 : Int64).toInt := by
    rw [hi, hm]
    exact (isTruncation_natCast 1250 100).neg
  have hround : IsRounding (10 ^ 2) (-1250 : Int64).toInt (-1300 : Int64).toInt := by
    rw [hi, hr]
    exact (isRounding_natCast 1250 (u := 100) (by decide)).neg
  have hplaces : (-2 : Int64).toInt = -(2 : Nat) := by decide +kernel
  have hsmall : (-1250 : Int64).toInt.natAbs ≤ 2 ^ 53 := by decide +kernel
  have hexact := roundingTo_exact_iff (e := e) (p := p) (s := s) rfl rfl hplaces (by decide) (by decide)
  obtain ⟨-, -, hlarge, hdouble⟩ := hexact
  obtain ⟨-, -, htruncIff, hroundIff⟩ := hlarge (by decide +kernel)
  rw [hdouble hsmall] at htruncIff hroundIff
  exact ⟨⟨rfl, rfl, hplaces, hsmall⟩, (htruncIff _ htrunc).mpr htrunc, (hroundIff _ hround).mpr hround⟩

/-- The truncation of `2 ^ 53 + 7` is farther from zero than the number itself, which is rounded up before. -/
theorem not_roundingTo_exact : ¬∀ i m : Int64, IsTruncation 10 i.toInt m.toInt →
    evaluate (roundingTo "$trunc" (.int i) (.int (-1))) { root := .object [] } = .ok (.int m) := by
  intro h
  have hi : (9007199254740999 : Int64).toInt = 9007199254740999 := by decide +kernel
  have hm : (9007199254740990 : Int64).toInt = 9007199254740990 := by decide +kernel
  have htrunc : IsTruncation 10 (9007199254740999 : Int64).toInt (9007199254740990 : Int64).toInt := by
    rw [hi, hm]
    exact isTruncation_natCast 9007199254740999 10
  have hplaces : (-1 : Int64).toInt = -(1 : Nat) := by decide +kernel
  have hexact := h _ _ htrunc
  rw [evaluate_roundingTo rfl rfl rfl rfl, toPlaces_int "$trunc" _ _ hplaces (by decide) (by decide),
    Except.ok.injEq, Value.int.injEq] at hexact
  exact absurd hexact (by decide +kernel)

end Expr

end DocQuery
