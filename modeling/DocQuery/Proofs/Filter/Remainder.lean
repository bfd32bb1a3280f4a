import DocQuery.Expr.Number
import DocQuery.Proofs.Double.Nearest
import DocQuery.Proofs.Filter.Membership
import DocQuery.Proofs.Path.Walk
import DocQuery.Proofs.Value.Recoded

/-! Remainders in filters. A filter takes the number, the divisor and the rest through doubles before it divides, while
    expressions divide integers as they are. Integers of 53 bits pass unchanged, and what is larger stays too large to
    matter for them; so the filter is exact for a number iff it has at most 53 bits. -/

namespace DocQuery

/-- The integer that comes out where `n` is rounded to a double and cut to an integer again. -/
def throughDouble (n : Int64) : Int64 := clampDouble (doubleOfInt n)

section ThroughDouble

variable {m n : Int64}

theorem natAbs_toInt_lt (n : Int64) : n.toInt.natAbs < 2 ^ 64 := by
  have hmin := n.le_toInt
  have hmax := n.toInt_lt
  omega

theorem isFinite_doubleOfInt (n : Int64) : (doubleOfInt n).isFinite := Double.isFinite_ofInt (natAbs_toInt_lt n)

theorem throughDouble_eq (n : Int64) : throughDouble n = clampInt64 (Double.ofInt n.toInt).toInt := by
  rw [throughDouble, Double.clampDouble_eq (isFinite_doubleOfInt n), ← Double.units_eq]
  rfl

theorem toInt_clampInt64 (k : Int) : (clampInt64 k).toInt = max (-2 ^ 63) (min k (2 ^ 63 - 1)) := by
  unfold clampInt64
  rw [Int64.toInt_minValue, Int64.toInt_maxValue]
  split_ifs with hlow hhigh
  · rw [Int64.toInt_minValue]
    omega
  · rw [Int64.toInt_maxValue]
    omega
  · rw [Int64.toInt_ofInt_of_le (by omega) (by omega)]
    omega

theorem clampInt64_toInt (n : Int64) : clampInt64 n.toInt = n := by
  have hmin := n.le_toInt
  have hmax := n.toInt_lt
  rw [← Int64.toInt_inj, toInt_clampInt64]
  omega

theorem throughDouble_of_lt (h : n.toInt.natAbs < 2 ^ 53) : throughDouble n = n := by
  rw [throughDouble_eq, Double.toInt_ofInt_of_lt h, clampInt64_toInt]

theorem le_natAbs_throughDouble (h : 2 ^ 53 ≤ n.toInt.natAbs) : 2 ^ 53 ≤ (throughDouble n).toInt.natAbs := by
  have hlarge := Double.le_natAbs_toInt_ofInt h (natAbs_toInt_lt n)
  rw [throughDouble_eq, toInt_clampInt64]
  omega

theorem throughDouble_ne_zero (h : n ≠ 0) : throughDouble n ≠ 0 := by
  rcases Nat.lt_or_ge n.toInt.natAbs (2 ^ 53) with hsmall | hlarge
  · rwa [throughDouble_of_lt hsmall]
  · have hrounded := le_natAbs_throughDouble hlarge
    intro hzero
    rw [hzero] at hrounded
    exact absurd hrounded (by decide)

/-- Numbers below `2 ^ 53` are told apart from the rounded number as from the number itself. -/
theorem eq_throughDouble_iff {k : Int} (hk : k.natAbs < 2 ^ 53) : k = (throughDouble n).toInt ↔ k = n.toInt := by
  rcases Nat.lt_or_ge n.toInt.natAbs (2 ^ 53) with hsmall | hlarge
  · rw [throughDouble_of_lt hsmall]
  · have hrounded := le_natAbs_throughDouble hlarge
    exact iff_of_false (by rintro rfl; omega) (by rintro rfl; omega)

theorem tmod_eq_self {k l : Int} (h : k.natAbs < l.natAbs) : k.tmod l = k := by
  have hquotient : k.tdiv l = 0 := by
    rw [← Int.natAbs_eq_zero, Int.natAbs_tdiv]
    exact Nat.div_eq_of_lt h
  have hdivision := Int.mul_tdiv_add_tmod k l
  rwa [hquotient, mul_zero, zero_add] at hdivision

/-- Below `2 ^ 53` the rounded divisor leaves the same rest. -/
theorem tmod_throughDouble {k : Int} (hk : k.natAbs < 2 ^ 53) : k.tmod (throughDouble n).toInt = k.tmod n.toInt := by
  rcases Nat.lt_or_ge n.toInt.natAbs (2 ^ 53) with hsmall | hlarge
  · rw [throughDouble_of_lt hsmall]
  · rw [tmod_eq_self (Nat.lt_of_lt_of_le hk (le_natAbs_throughDouble hlarge)),
      tmod_eq_self (Nat.lt_of_lt_of_le hk hlarge)]

/-- No number from `2 ^ 53` on has the same rest for the divisors `2 ^ 53` and `2 ^ 53 + 1`, of which the second one is
    rounded to the first one. -/
theorem tmod_ne_tmod_succ (h : 2 ^ 53 ≤ n.toInt.natAbs) : n.toInt.tmod (2 ^ 53) ≠ n.toInt.tmod (2 ^ 53 + 1) := by
  intro hrests
  have hmin := n.le_toInt
  have hmax := n.toInt_lt
  have hfirst := Int.mul_tdiv_add_tmod n.toInt (2 ^ 53)
  have hsecond := Int.mul_tdiv_add_tmod n.toInt (2 ^ 53 + 1)
  have hlow := Int.lt_tmod_of_pos n.toInt (b := 2 ^ 53) (by decide)
  have hhigh := Int.tmod_lt_of_pos n.toInt (b := 2 ^ 53) (by decide)
  omega

/-- Below `2 ^ 53` it does not matter that divisor and rest are rounded. -/
theorem rounded_rest_iff (h : n.toInt.natAbs < 2 ^ 53) (divisor rest : Int64) :
    (throughDouble n).toInt.tmod (throughDouble divisor).toInt = (throughDouble rest).toInt ↔
      n.toInt.tmod divisor.toInt = rest.toInt := by
  have hrest : (n.toInt.tmod divisor.toInt).natAbs < 2 ^ 53 := by
    rw [Int.natAbs_tmod]
    exact Nat.lt_of_le_of_lt (Nat.mod_le _ _) h
  rw [throughDouble_of_lt h, tmod_throughDouble h, eq_throughDouble_iff hrest]

/-- From `2 ^ 53` on there are a divisor and a rest that are found but not left. -/
theorem exists_rounded_rest (h : 2 ^ 53 ≤ n.toInt.natAbs) : ∃ divisor rest : Int64, divisor ≠ 0 ∧
    (throughDouble n).toInt.tmod (throughDouble divisor).toInt = (throughDouble rest).toInt ∧
      n.toInt.tmod divisor.toInt ≠ rest.toInt := by
  have hpower : (9007199254740992 : Int64).toInt = 2 ^ 53 := by decide
  have hsucc : (9007199254740993 : Int64).toInt = 2 ^ 53 + 1 := by decide
  have hrest : (throughDouble n % 9007199254740992).toInt = (throughDouble n).toInt.tmod (2 ^ 53) := by
    rw [Int64.toInt_mod, hpower]
  have hsmall : (throughDouble n % 9007199254740992).toInt.natAbs < 2 ^ 53 := by
    rw [hrest, Int.natAbs_tmod]
    exact Nat.mod_lt _ (by decide)
  have hfound : ∀ divisor : Int64, throughDouble divisor = 9007199254740992 →
      (throughDouble n).toInt.tmod (throughDouble divisor).toInt =
        (throughDouble (throughDouble n % 9007199254740992)).toInt := fun divisor hdivisor => by
    rw [hdivisor, throughDouble_of_lt hsmall, hrest, hpower]
  -- Both `2 ^ 53` and its successor become `2 ^ 53` as doubles, but they do not leave the same rest.
  by_cases hleft : n.toInt.tmod (2 ^ 53) = (throughDouble n % 9007199254740992).toInt
  · refine ⟨9007199254740993, _, by decide, hfound _ (by decide +kernel), ?_⟩
    rw [hsucc, ← hleft]
    exact (tmod_ne_tmod_succ h).symm
  · refine ⟨9007199254740992, _, by decide, hfound _ (by decide +kernel), ?_⟩
    rwa [hpower]

end ThroughDouble

/-! ### Conditions -/

namespace Condition

variable {n divisor rest : Int64}

theorem wholeOf_int (n : Int64) : wholeOf (.int n) = .ok (throughDouble n) := if_pos (isFinite_doubleOfInt n)

theorem divisionOf_int (hdivisor : divisor ≠ 0) (rest : Int64) :
    divisionOf (.array [.int divisor, .int rest]) = .ok (throughDouble divisor, throughDouble rest) := by
  rw [divisionOf, wholeOf_int, wholeOf_int]
  exact if_neg (throughDouble_ne_zero hdivisor)

theorem ofValue_mod (hdivisor : divisor ≠ 0) (rest : Int64) :
    ofValue (.object [("$mod", .array [.int divisor, .int rest])]) =
      remainder (throughDouble divisor) (throughDouble rest) := by
  have hname : FieldOperator.ofName? "$mod" = some .mod := rfl
  rw [ofValue_operator hname, ofOperator, divisionOf_int hdivisor, ofArgument]

theorem leaves_int (divisor rest n : Int64) :
    leaves divisor rest (.int n) = decide ((throughDouble n).toInt.tmod divisor.toInt = rest.toInt) := by
  show ((doubleOfInt n).isFinite && _) = _
  rw [isFinite_doubleOfInt, Bool.true_and]
  rfl

end Condition

/-! ### Expressions -/

/-- Expressions divide integers as they are. -/
theorem Number.modulo_int (n : Int64) {divisor : Int64} (hdivisor : divisor ≠ 0) :
    modulo (.int n) (.int divisor) = .ok (.int (n % divisor)) := by
  have hrest : Int64.ofInt (n.toInt.tmod divisor.toInt) = n % divisor := by
    rw [← Int64.toInt_mod, Int64.ofInt_toInt]
  show (if divisor = 0 then _ else _) = _
  rw [if_neg hdivisor, hrest]

/-! ### Queries -/

namespace Query

variable {p : String} {d : Value} {n : Int64}

/-- The filter that asks for a rest. -/
def division (p : String) (divisor rest : Int64) : Value := condition p "$mod" (.array [.int divisor, .int rest])

theorem testValue_division (search : Option TextSearch) (hp : isOperatorName p = false)
    (hn : (Path.ofString p).get? d = some (.int n)) {divisor : Int64} (hdivisor : divisor ≠ 0) (rest : Int64) :
    testValue (division p divisor rest) search d =
      .ok (decide ((throughDouble n).toInt.tmod (throughDouble divisor).toInt = (throughDouble rest).toInt)) := by
  rw [division, testValue_condition hp (Condition.ofValue_mod hdivisor rest) rfl, Path.candidates_of_get? hn,
    Condition.test, ← Condition.leaves_int]
  show Except.ok ((Condition.leaves _ _ _ || false) || false) = _
  rw [Bool.or_false, Bool.or_false]

/-- At a path to an integer a filter divides what comes through doubles, while expressions leave the exact rest. Both
    agree on the rests for all divisors iff the integer is below `2 ^ 53`. -/
theorem testValue_division_exact_iff (search : Option TextSearch) (hp : isOperatorName p = false)
    (hn : (Path.ofString p).get? d = some (.int n)) :
    (∀ divisor rest : Int64, divisor ≠ 0 → testValue (division p divisor rest) search d =
      .ok (decide ((throughDouble n).toInt.tmod (throughDouble divisor).toInt = (throughDouble rest).toInt))) ∧
    (∀ divisor : Int64, divisor ≠ 0 → Number.modulo (.int n) (.int divisor) = .ok (.int (n % divisor))) ∧
    ((∀ divisor rest : Int64, divisor ≠ 0 →
      testValue (division p divisor rest) search d = .ok (decide (n % divisor = rest))) ↔
        n.toInt.natAbs < 2 ^ 53) := by
  have hremainder : ∀ divisor rest : Int64, n % divisor = rest ↔ n.toInt.tmod divisor.toInt = rest.toInt := by
    intro divisor rest
    rw [← Int64.toInt_inj, Int64.toInt_mod]
  refine ⟨fun divisor rest hdivisor => testValue_division search hp hn hdivisor rest,
    fun divisor hdivisor => Number.modulo_int n hdivisor, fun hexact => ?_, fun hsmall divisor rest hdivisor => ?_⟩
  · by_contra hlarge
    obtain ⟨divisor, rest, hdivisor, hfound, hleft⟩ := exists_rounded_rest (Nat.not_lt.mp hlarge)
    have hanswer := hexact divisor rest hdivisor
    rw [testValue_division search hp hn hdivisor, Except.ok.injEq, decide_eq_decide, hremainder] at hanswer
    exact hleft (hanswer.mp hfound)
  · rw [testValue_division search hp hn hdivisor, Except.ok.injEq, decide_eq_decide, hremainder]
    exact rounded_rest_iff hsmall divisor rest

/-- The integer `2 ^ 53 - 1` is odd. -/
theorem testValue_division_exact_odd :
    let d := Value.object [("stock", .object [("count", .int 9007199254740991)])]
    (isOperatorName "stock.count" = false ∧ (Path.ofString "stock.count").get? d = some (.int 9007199254740991) ∧
      (2 : Int64) ≠ 0 ∧ (9007199254740991 : Int64).toInt.natAbs < 2 ^ 53) ∧
      testValue (division "stock.count" 2 1) none d = .ok true := by
  intro d
  have hp : isOperatorName "stock.count" = false := by decide
  have hn : (Path.ofString "stock.count").get? d = some (.int 9007199254740991) := rfl
  have hsmall : (9007199254740991 : Int64).toInt.natAbs < 2 ^ 53 := by decide
  have hexact := (testValue_division_exact_iff none hp hn).2.2.mpr hsmall
  exact ⟨⟨hp, hn, by decide, hsmall⟩, hexact 2 1 (by decide)⟩

/-- The integer `2 ^ 53 + 1` is odd, too, but is rounded to an even one. -/
theorem not_testValue_division_exact : ¬∀ n divisor rest : Int64, divisor ≠ 0 →
    testValue (division "n" divisor rest) none (.object [("n", .int n)]) = .ok (decide (n % divisor = rest)) := by
  intro h
  have hexact := h 9007199254740993 2 1 (by decide)
  rw [testValue_division none (by decide) rfl (by decide), Except.ok.injEq, decide_eq_decide] at hexact
  have hodd : (9007199254740993 : Int64) % 2 = 1 := by decide
  exact absurd (hexact.mpr hodd) (by decide +kernel)

end Query

end DocQuery
