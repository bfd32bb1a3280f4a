import DocQuery.Proofs.Double.Nearest
import DocQuery.Proofs.Double.Quotient

/-! Whole doubles. Integers are rounded to whole doubles, and so are products of whole doubles; both keep what has at
    most 53 bits apart from a power of two. A whole number that is scaled by a power of ten is never rounded to another
    multiple of it. Powers of ten are exact up to the twentieth, and whole doubles that are not too large are rounded in
    units of them as the whole numbers are. -/

namespace DocQuery.Double

variable {negative s t : Bool} {x y : Double} {a d e k m n : Nat}

/-! ### The nearest whole double -/

/-- The double nearest to a whole number, which is a whole number, too. -/
def nearestWhole (n : Nat) : Nat := unitsOf (nearestCode (n * one) 1) / one

theorem unitsOf_nearestCode_mul_one (ha : a < 2 ^ 53) :
    unitsOf (nearestCode (a * 2 ^ e * one) 1) = a * 2 ^ e * one := by
  rw [one_eq, Nat.mul_assoc, ← Nat.pow_add, unitsOf_nearestCode ha]

theorem one_dvd_unitsOf_nearestCode (n : Nat) : one ∣ unitsOf (nearestCode (n * one) 1) := by
  rcases Nat.lt_or_ge n (2 ^ 53) with hsmall | hlarge
  · have hexact := unitsOf_nearestCode_mul_one (e := 0) hsmall
    rw [Nat.pow_zero, Nat.mul_one] at hexact
    rw [hexact]
    exact Nat.dvd_mul_left one n
  · -- The exponent is not below that of the units in 1.
    have hlog : 53 ≤ n.log2 := (Nat.le_log2 (by omega)).mpr hlarge
    have hexponent : (n * one / 1).log2 = n.log2 + unitBits := by
      rw [Nat.div_one, one_eq, log2_mul_two_pow (by omega)]
    have hquotient : 2 ^ 52 ≤ n * one / 1 := by
      rw [Nat.div_one]
      exact Nat.le_trans (by omega) (Nat.le_mul_of_pos_right n one_pos)
    rw [unitsOf_nearestCode_eq hquotient rfl, hexponent]
    refine Dvd.dvd.mul_left ?_ _
    rw [one_eq]
    exact Nat.pow_dvd_pow 2 (by omega)

theorem nearestWhole_mul_one (n : Nat) : nearestWhole n * one = unitsOf (nearestCode (n * one) 1) :=
  Nat.div_mul_cancel (one_dvd_unitsOf_nearestCode n)

theorem nearestWhole_of_bits (ha : a < 2 ^ 53) : nearestWhole (a * 2 ^ e) = a * 2 ^ e := by
  rw [nearestWhole, unitsOf_nearestCode_mul_one ha, Nat.mul_div_cancel _ one_pos]

theorem nearestWhole_of_lt (hn : n < 2 ^ 53) : nearestWhole n = n := by
  have hexact := nearestWhole_of_bits (e := 0) hn
  rwa [Nat.pow_zero, Nat.mul_one] at hexact

theorem nearestWhole_le_two_pow (h : n ≤ 2 ^ e) : nearestWhole n ≤ 2 ^ e := by
  have hpower := nearestWhole_of_bits (e := e) (show 1 < 2 ^ 53 by decide)
  rw [Nat.one_mul] at hpower
  rw [← hpower]
  exact Nat.div_le_div_right (unitsOf_strictMono.monotone (nearestCode_mono 1 (Nat.mul_le_mul_right one h)))

/-- What has a code of its own is not rounded. -/
theorem nearestWhole_of_unitsOf {c : Nat} (h : unitsOf c = n * one) : nearestWhole n = n := by
  rw [nearestWhole, ← h, nearestCode_unitsOf, h, Nat.mul_div_cancel _ one_pos]

theorem unitsOf_of_nearestWhole (h : nearestWhole n = n) : unitsOf (nearestCode (n * one) 1) = n * one := by
  rw [← nearestWhole_mul_one, h]

theorem nearestWhole_error (hpos : 0 < n) :
    2 ^ 53 * nearestWhole n < 2 ^ 53 * n + n ∧ 2 ^ 53 * n < 2 ^ 53 * nearestWhole n + n := by
  have hunits : 2 ^ 52 ≤ one := by decide +kernel
  have hquotient : 2 ^ 52 ≤ n * one / 1 := by
    rw [Nat.div_one]
    exact Nat.le_trans hunits (Nat.le_mul_of_pos_left one hpos)
  obtain ⟨hhigh, hlow⟩ := nearestCode_error Nat.one_pos hquotient
  rw [Nat.mul_one, ← nearestWhole_mul_one] at hhigh hlow
  constructor
  · refine Nat.lt_of_mul_lt_mul_right (a := one) ?_
    linarith
  · refine Nat.lt_of_mul_lt_mul_right (a := one) ?_
    linarith

/-! ### Multiples of powers of ten -/

/-- Different codes are one part in `2 ^ 53` apart at least. -/
theorem unitsOf_gap {c c' : Nat} (h : c < c') : unitsOf c' + 2 ^ 53 * unitsOf c ≤ 2 ^ 53 * unitsOf c' := by
  have hnext := unitsOf_strictMono.monotone (Nat.succ_le_of_lt h)
  have hsignificand : unitsOf c + 2 ^ exponentOf c ≤ 2 ^ 53 * 2 ^ exponentOf c := by
    rw [unitsOf_eq, ← Nat.succ_mul]
    exact Nat.mul_le_mul_right _ (significandOf_lt c)
  rw [Nat.succ_eq_add_one, unitsOf_succ] at hnext
  omega

theorem nearestWhole_gap (hm : nearestWhole m = m) (hn : nearestWhole n = n) (h : m < n) :
    n + 2 ^ 53 * m ≤ 2 ^ 53 * n := by
  have hm := unitsOf_of_nearestWhole hm
  have hn := unitsOf_of_nearestWhole hn
  have hlt : unitsOf (nearestCode (m * one) 1) < unitsOf (nearestCode (n * one) 1) := by
    rw [hm, hn]
    exact Nat.mul_lt_mul_of_pos_right h one_pos
  have hgap := unitsOf_gap (unitsOf_strictMono.lt_iff_lt.mp hlt)
  rw [hm, hn] at hgap
  refine Nat.le_of_mul_le_mul_right ?_ one_pos
  linarith

/-- A number has a code of its own if a multiple by a power of ten has one. -/
theorem nearestWhole_of_mul_pow_ten (h : nearestWhole (m * 10 ^ k) = m * 10 ^ k) : nearestWhole m = m := by
  have hunits := unitsOf_of_nearestWhole h
  generalize nearestCode (m * 10 ^ k * one) 1 = c at hunits
  have hsignificand := significandOf_lt c
  have hfactors : 10 ^ k = 5 ^ k * 2 ^ k := by rw [← Nat.mul_pow]
  have hfive : 0 < 5 ^ k := Nat.pow_pos (by decide)
  rw [unitsOf_eq, one_eq, hfactors] at hunits
  -- The power of two in the multiple is either all within the significand, or more than it can hold.
  rcases Nat.le_total (exponentOf c) (k + unitBits) with hlow | hhigh
  · obtain ⟨j, hj⟩ := Nat.exists_eq_add_of_le hlow
    have hsplit : significandOf c = m * 5 ^ k * 2 ^ j := by
      refine Nat.eq_of_mul_eq_mul_right (Nat.two_pow_pos (exponentOf c)) ?_
      calc significandOf c * 2 ^ exponentOf c = m * (5 ^ k * 2 ^ k) * 2 ^ unitBits := hunits
        _ = m * 5 ^ k * 2 ^ (k + unitBits) := by ring
        _ = m * 5 ^ k * 2 ^ j * 2 ^ exponentOf c := by
          rw [hj]
          ring
    have hle : m ≤ significandOf c := by
      rw [hsplit, Nat.mul_assoc]
      exact Nat.le_mul_of_pos_right m (Nat.mul_pos hfive (Nat.two_pow_pos j))
    exact nearestWhole_of_lt (Nat.lt_of_le_of_lt hle hsignificand)
  · obtain ⟨j, hj⟩ := Nat.exists_eq_add_of_le hhigh
    have hsplit : significandOf c * 2 ^ j = m * 5 ^ k := by
      refine Nat.eq_of_mul_eq_mul_right (Nat.two_pow_pos (k + unitBits)) ?_
      calc significandOf c * 2 ^ j * 2 ^ (k + unitBits) = significandOf c * 2 ^ exponentOf c := by
            rw [hj]
            ring
        _ = m * (5 ^ k * 2 ^ k) * 2 ^ unitBits := hunits
        _ = m * 5 ^ k * 2 ^ (k + unitBits) := by ring
    -- The power of five is odd, so that the power of two is in the other factor.
    have hcoprime : Nat.Coprime (2 ^ j) (5 ^ k) := Nat.Coprime.pow j k (by decide)
    obtain ⟨b, rfl⟩ : 2 ^ j ∣ m := hcoprime.dvd_of_dvd_mul_right (Dvd.intro_left _ hsplit)
    have hb : significandOf c = b * 5 ^ k := by
      refine Nat.eq_of_mul_eq_mul_right (Nat.two_pow_pos j) ?_
      rw [hsplit]
      ring
    have hle : b ≤ significandOf c := by
      rw [hb]
      exact Nat.le_mul_of_pos_right b hfive
    rw [Nat.mul_comm]
    exact nearestWhole_of_bits (Nat.lt_of_le_of_lt hle hsignificand)

/-- A multiple of a power of ten is not rounded to another multiple. -/
theorem eq_of_nearestWhole_mul_pow_ten (hn : nearestWhole n = n) (h : nearestWhole (n * 10 ^ k) = m * 10 ^ k) :
    n = m := by
  have hten : 0 < 10 ^ k := Nat.pow_pos (by decide)
  have hunits : unitsOf (nearestCode (n * 10 ^ k * one) 1) = m * 10 ^ k * one := by rw [← h, nearestWhole_mul_one]
  have hm : nearestWhole m = m := nearestWhole_of_mul_pow_ten (nearestWhole_of_unitsOf hunits)
  rcases Nat.eq_zero_or_pos n with rfl | hpos
  · rw [Nat.zero_mul, nearestWhole_of_lt (by decide)] at h
    exact ((Nat.mul_eq_zero.mp h.symm).resolve_right hten.ne').symm
  obtain ⟨hhigh, hlow⟩ := nearestWhole_error (Nat.mul_pos hpos hten)
  rw [h] at hhigh hlow
  -- Rounding moves a number by less than its part in `2 ^ 53`, also after the powers of ten are taken away.
  have habove : 2 ^ 53 * m < 2 ^ 53 * n + n := by
    refine Nat.lt_of_mul_lt_mul_right (a := 10 ^ k) ?_
    linarith
  have hbelow : 2 ^ 53 * n < 2 ^ 53 * m + n := by
    refine Nat.lt_of_mul_lt_mul_right (a := 10 ^ k) ?_
    linarith
  -- Numbers that have codes of their own are at least that far apart.
  rcases Nat.lt_trichotomy n m with hlt | heq | hgt
  · have hgap := nearestWhole_gap hn hm hlt
    omega
  · exact heq
  · have hgap := nearestWhole_gap hm hn hgt
    omega

/-! ### Whole doubles -/

/-- The double is a whole number with a sign, which shows on a zero, too. -/
def IsWhole (x : Double) (negative : Bool) (n : Nat) : Prop :=
  ∃ code : Fin finiteCodes, x = .finite negative code ∧ unitsOf code = n * one

theorem IsWhole.toInt_eq (h : x.IsWhole negative n) : x.toInt = if negative then -(n : Int) else n := by
  obtain ⟨code, rfl, hcode⟩ := h
  rw [toInt_finite, hcode, Nat.mul_div_cancel _ one_pos]

theorem natAbs_signed (negative : Bool) (n : Nat) : (if negative then -(n : Int) else n).natAbs = n := by
  cases negative with
  | false => exact Int.natAbs_natCast n
  | true => exact (Int.natAbs_neg n).trans (Int.natAbs_natCast n)

theorem IsWhole.natAbs_toInt (h : x.IsWhole negative n) : x.toInt.natAbs = n := by
  rw [h.toInt_eq, natAbs_signed]

theorem IsWhole.nearestWhole_eq (h : x.IsWhole negative n) : nearestWhole n = n := by
  obtain ⟨code, -, hcode⟩ := h
  exact nearestWhole_of_unitsOf hcode

theorem lt_finiteCodes {code : Nat} (hn : n ≤ 2 ^ 200) (h : unitsOf code ≤ n * one) : code < finiteCodes := by
  have hmany : 2 ^ 200 * one < unitsOf finiteCodes := by decide +kernel
  refine unitsOf_strictMono.lt_iff_lt.mp (Nat.lt_of_le_of_lt (Nat.le_trans h ?_) hmany)
  exact Nat.mul_le_mul_right one hn

theorem isWhole_ofUnits {num den : Nat} (hn : n ≤ 2 ^ 200) (h : unitsOf (nearestCode num den) = n * one) :
    (ofUnits negative num den).IsWhole negative n := by
  rw [ofUnits, dif_pos (lt_finiteCodes hn h.le)]
  exact ⟨_, rfl, h⟩

theorem isWhole_ofWhole (hn : n ≤ 2 ^ 200) : (ofWhole negative n).IsWhole negative (nearestWhole n) :=
  isWhole_ofUnits (nearestWhole_le_two_pow hn) (nearestWhole_mul_one n).symm

theorem IsWhole.mul (hx : x.IsWhole s m) (hy : y.IsWhole t n) (h : m * n ≤ 2 ^ 200) :
    (x.mul y).IsWhole (s ^^ t) (nearestWhole (m * n)) := by
  obtain ⟨c, rfl, hc⟩ := hx
  obtain ⟨c', rfl, hc'⟩ := hy
  have hunits : unitsOf c * unitsOf c' = m * n * one * one := by
    rw [hc, hc']
    ring
  have hcode := nearestCode_mul_right one_pos (m * n * one) 1
  rw [Nat.one_mul] at hcode
  refine isWhole_ofUnits (nearestWhole_le_two_pow h) ?_
  rw [hunits, hcode, nearestWhole_mul_one]

theorem isWhole_ofInt {z : Int} (h : z.natAbs ≤ 2 ^ 200) : (ofInt z).IsWhole (z < 0) (nearestWhole z.natAbs) := by
  rcases eq_or_ne z 0 with rfl | hne
  · have hzero : ofInt 0 = ofWhole false 0 := by decide +kernel
    rw [hzero]
    exact isWhole_ofWhole (Nat.zero_le _)
  · have hone := Worth.one_pos
    have hmagnitude : (z * one).natAbs = z.natAbs * one := by rw [Int.natAbs_mul, Int.natAbs_natCast]
    have hsign : z * one < 0 ↔ z < 0 :=
      ⟨fun hn => neg_of_mul_neg_left hn hone.le, fun hn => mul_neg_of_neg_of_pos hn hone⟩
    have hunits : z * (one : Int) ≠ 0 := mul_ne_zero hne hone.ne'
    rw [ofInt, ofIntUnits, if_neg hunits, hmagnitude, decide_eq_decide.mpr hsign]
    exact isWhole_ofWhole h

/-- An integer is a double iff its magnitude is not rounded. -/
theorem toInt_ofInt_eq_iff {z : Int} (h : z.natAbs ≤ 2 ^ 200) :
    (ofInt z).toInt = z ↔ nearestWhole z.natAbs = z.natAbs := by
  rw [(isWhole_ofInt h).toInt_eq]
  simp only [decide_eq_true_eq]
  split <;> omega

end DocQuery.Double
