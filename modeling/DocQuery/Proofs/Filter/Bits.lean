import Mathlib.Data.Int.Bitwise
import DocQuery.Proofs.Filter.Membership
import DocQuery.Proofs.Path.Walk
import DocQuery.Proofs.Value.Exact
import DocQuery.Proofs.Value.Recoded

/-! Bits of integers. The shifts that read a bit read it from the two's complement of the integer, which goes on with
    the sign for ever, so listed positions may lie behind the word. A mask stands for the positions of its bits, all of
    which lie before the sign, and what is asked of these positions is what is asked of the masked word. -/

namespace DocQuery

/-! ### Single bits -/

section Bits

variable {n m k : Int64} {p : Nat}

/-- The bits of an integer are the parities of its shifted values. -/
theorem testBit_eq_shiftRight (n : Int) (p : Nat) : n.testBit p = decide ((n >>> p) % 2 = 1) := by
  cases n with
  | ofNat k =>
    show k.testBit p = decide (((k >>> p : Nat) : Int) % 2 = 1)
    rw [Nat.testBit_eq_decide_div_mod_eq, Nat.shiftRight_eq_div_pow, decide_eq_decide]
    omega
  | negSucc k =>
    show (!k.testBit p) = decide (Int.negSucc (k >>> p) % 2 = 1)
    rw [Nat.testBit_eq_decide_div_mod_eq, Nat.shiftRight_eq_div_pow, ← decide_not, decide_eq_decide]
    omega

/-- Behind the word the bits are like the sign. -/
theorem testBit_of_le (n : Int64) (hp : 63 ≤ p) : n.toInt.testBit p = decide (n.toInt < 0) := by
  have hbound : 2 ^ 63 ≤ 2 ^ p := Nat.pow_le_pow_right (by decide) hp
  have hmin := n.le_toInt
  have hmax := n.toInt_lt
  cases hn : n.toInt with
  | ofNat k =>
    rw [hn, Int.ofNat_eq_natCast] at hmax
    have hk : k < 2 ^ p := by omega
    show k.testBit p = decide ((k : Int) < 0)
    rw [Nat.testBit_lt_two_pow hk, decide_eq_false (Int.not_lt.mpr (Int.natCast_nonneg k))]
  | negSucc k =>
    rw [hn, Int.negSucc_eq] at hmin
    have hk : k < 2 ^ p := by omega
    show (!k.testBit p) = decide (Int.negSucc k < 0)
    rw [Nat.testBit_lt_two_pow hk, decide_eq_true (Int.negSucc_lt_zero k), Bool.not_false]

theorem isBitSet_eq_testBit (n : Int64) : isBitSet n = n.toInt.testBit := by
  funext p
  unfold isBitSet
  split
  · next hp => exact (testBit_of_le n hp).symm
  · exact (testBit_eq_shiftRight _ _).symm

theorem decide_toInt_odd {w : Nat} (x : BitVec (w + 1)) : decide (x.toInt % 2 = 1) = x.getLsbD 0 := by
  rw [← BitVec.testBit_toNat, Nat.testBit_zero, decide_eq_decide, BitVec.toInt_eq_msb_cond, Nat.pow_succ]
  split <;> omega

/-- Before the sign the bits are those of the word. -/
theorem isBitSet_of_lt (h : p < 63) : isBitSet n p = n.toBitVec.getLsbD p := by
  have hshift : n.toInt >>> p = (n.toBitVec.sshiftRight p).toInt := by
    rw [BitVec.toInt_sshiftRight, Int64.toInt_toBitVec]
  have hwidth : p + 0 < 64 := by omega
  rw [isBitSet, if_neg (by omega), hshift, decide_toInt_odd, BitVec.getLsbD_sshiftRight, if_pos hwidth]
  rfl

/-! ### Masks -/

theorem getLsbD_sign (h : 0 ≤ n.toInt) : n.toBitVec.getLsbD 63 = false := by
  have hmsb : n.toBitVec.msb = false := by
    rw [BitVec.msb_eq_toInt, Int64.toInt_toBitVec]
    exact decide_eq_false (Int.not_lt.mpr h)
  exact hmsb

/-- Words that are not negative are known by their bits before the sign. -/
theorem and_eq_iff (hm : 0 ≤ m.toInt) (hk : 0 ≤ k.toInt) :
    n &&& m = k ↔ ∀ p < 63, (isBitSet n p && isBitSet m p) = isBitSet k p := by
  constructor
  · rintro rfl p hp
    rw [isBitSet_of_lt hp, isBitSet_of_lt hp, isBitSet_of_lt hp, Int64.toBitVec_and, BitVec.getLsbD_and]
  · intro h
    refine Int64.toBitVec_inj.mp (BitVec.eq_of_getLsbD_eq fun p hp => ?_)
    rw [Int64.toBitVec_and, BitVec.getLsbD_and]
    rcases Nat.lt_or_ge p 63 with hlow | hhigh
    · rw [← isBitSet_of_lt hlow, ← isBitSet_of_lt hlow, ← isBitSet_of_lt hlow, h p hlow]
    · obtain rfl : p = 63 := by omega
      rw [getLsbD_sign hm, getLsbD_sign hk, Bool.and_false]

/-- The positions of the bits of a mask. -/
def maskPositions (m : Int64) : List Nat := (List.range 63).filter (isBitSet m)

theorem all_maskPositions (n : Int64) (hm : 0 ≤ m.toInt) :
    (maskPositions m).all (isBitSet n) = (n &&& m == m) := by
  rw [Bool.eq_iff_iff, beq_iff_eq, and_eq_iff hm hm, maskPositions, List.all_filter, List.all_eq_true]
  simp only [List.mem_range]
  refine forall₂_congr fun p _ => ?_
  cases isBitSet n p <;> cases isBitSet m p <;> simp

theorem all_not_maskPositions (n : Int64) (hm : 0 ≤ m.toInt) :
    ((maskPositions m).all fun p => !isBitSet n p) = (n &&& m == 0) := by
  have hzero : ∀ p < 63, isBitSet 0 p = false := by decide
  have hnonneg : 0 ≤ (0 : Int64).toInt := by decide
  rw [Bool.eq_iff_iff, beq_iff_eq, and_eq_iff hm hnonneg, maskPositions, List.all_filter, List.all_eq_true]
  simp only [List.mem_range]
  refine forall₂_congr fun p hp => ?_
  rw [hzero p hp]
  cases isBitSet n p <;> cases isBitSet m p <;> simp

end Bits

/-! ### Reading -/

/-- The value is a number that denotes the position, as an integer or as a double. -/
def Value.IsPosition (item : Value) (position : Nat) : Prop :=
  position < 2 ^ 32 ∧ item.denoted? = some (.ofRat position)

namespace Condition

open Value

variable {item operand : Value} {position : Nat} {positions : List Nat}

theorem toInt_ofNat_position (h : position < 2 ^ 32) : (Int64.ofNat position).toInt = position :=
  Int64.toInt_ofNat_of_lt (by omega)

/-- A position is read from an integer and from a double. -/
theorem toInt?_position (hbound : position < 2 ^ 32) (h : item.worth? = some (Worth.ofInt position)) :
    item.toInt? = some (Int64.ofNat position) := by
  have hread := toInt_ofNat_position hbound
  cases item with
  | int n =>
    have hworth : n.toInt = (Int64.ofNat position).toInt := by
      rw [hread]
      exact Worth.ofInt_inj.mp (Option.some.inj h)
    rw [toInt?, Int64.toInt_inj.mp hworth]
  | double x =>
    have hworth : x.worth = Worth.ofInt (Int64.ofNat position).toInt := by
      rw [hread]
      exact Option.some.inj h
    -- A double is read as an integer only below a bound, which positions of 32 bits never reach.
    have hsmall : belowIntegerBound (Int64.ofNat position) := by
      rw [belowIntegerBound, hread, Int.natAbs_natCast, decide_eq_true_eq]
      omega
    rw [toInt?_double hworth, if_pos hsmall]
  | _ => cases h

theorem positionOf_eq_ok (operator : String) (whole : Value) (hbound : position < 2 ^ 32)
    (h : item.worth? = some (Worth.ofInt position)) : positionOf operator whole item = .ok position := by
  have hread := toInt_ofNat_position hbound
  have hrange : 0 ≤ (Int64.ofNat position).toInt ∧ (Int64.ofNat position).toInt < UInt32.size := by
    rw [hread]
    exact ⟨Int.natCast_nonneg _, Int.ofNat_lt.mpr hbound⟩
  rw [positionOf, toInt?_position hbound h]
  dsimp only
  rw [if_pos hrange, hread, Int.toNat_natCast]

theorem positionsOf_array (operator : String) {items : List Value} (h : List.Forall₂ IsPosition items positions) :
    positionsOf operator (.array items) = .ok positions := by
  rw [positionsOf]
  refine Checked.mapM_eq_ok.mpr (h.imp fun item position hitem => ?_)
  exact positionOf_eq_ok operator _ hitem.1 (worth?_of_denoted? (by exact_mod_cast hitem.2))

theorem positionsOf_mask (operator : String) {m : Int64} (hm : 0 ≤ m.toInt) :
    positionsOf operator (.int m) = .ok (maskPositions m) := if_pos hm

theorem ofValue_bits (test : BitTest) (h : positionsOf test.operatorName operand = .ok positions) :
    ofValue (.object [(test.operatorName, operand)]) = bits test positions := by
  have hname : FieldOperator.ofName? test.operatorName = some (.bits test) := by cases test <;> rfl
  rw [ofValue_operator hname, ofOperator, h, ofArgument]

end Condition

/-! ### Queries -/

namespace Query

variable {p : String} {d operand : Value} {n : Int64} {positions : List Nat}

/-- A test for bits at a path to an integer is made on the bits of the integer. -/
theorem testValue_bits_at (search : Option TextSearch) (hp : isOperatorName p = false)
    (hn : (Path.ofString p).get? d = some (.int n))
    (hread : ∀ operator, Condition.positionsOf operator operand = .ok positions) :
    testValue (condition p "$bitsAllSet" operand) search d = .ok (positions.all (isBitSet n)) ∧
      testValue (condition p "$bitsAllClear" operand) search d = .ok (positions.all fun q => !isBitSet n q) ∧
      testValue (condition p "$bitsAnySet" operand) search d = .ok !(positions.all fun q => !isBitSet n q) ∧
      testValue (condition p "$bitsAnyClear" operand) search d = .ok !(positions.all (isBitSet n)) := by
  have htest : ∀ test : BitTest, testValue (condition p test.operatorName operand) search d =
      .ok (Condition.hasBits test positions (.int n)) := fun test => by
    rw [testValue_condition hp (Condition.ofValue_bits test (hread _)) rfl, Path.candidates_of_get? hn, Condition.test]
    show Except.ok (Condition.hasBits test positions (.int n) || false) = _
    rw [Bool.or_false]
  refine ⟨htest .allSet, htest .allClear, ?_, ?_⟩
  · rw [List.not_all_eq_any_not]
    simp only [Bool.not_not]
    exact htest .anySet
  · rw [List.not_all_eq_any_not]
    exact htest .anyClear

/-- At a path to an integer, the tests with a mask are those of the masked word, and the tests with listed positions
    those of the two's complement. -/
theorem testValue_bits_exact (search : Option TextSearch) (hp : isOperatorName p = false)
    (hn : (Path.ofString p).get? d = some (.int n)) :
    (∀ m : Int64, 0 ≤ m.toInt →
      testValue (condition p "$bitsAllSet" (.int m)) search d = .ok (n &&& m == m) ∧
        testValue (condition p "$bitsAllClear" (.int m)) search d = .ok (n &&& m == 0) ∧
        testValue (condition p "$bitsAnySet" (.int m)) search d = .ok (n &&& m != 0) ∧
        testValue (condition p "$bitsAnyClear" (.int m)) search d = .ok (n &&& m != m)) ∧
    ∀ items positions, List.Forall₂ Value.IsPosition items positions →
      testValue (condition p "$bitsAllSet" (.array items)) search d = .ok (positions.all n.toInt.testBit) ∧
        testValue (condition p "$bitsAllClear" (.array items)) search d =
          .ok (positions.all fun q => !n.toInt.testBit q) ∧
        testValue (condition p "$bitsAnySet" (.array items)) search d = .ok (positions.any n.toInt.testBit) ∧
        testValue (condition p "$bitsAnyClear" (.array items)) search d =
          .ok (positions.any fun q => !n.toInt.testBit q) := by
  refine ⟨fun m hm => ?_, fun items positions h => ?_⟩
  · have hbits := testValue_bits_at search hp hn fun operator => Condition.positionsOf_mask operator hm
    rw [all_maskPositions n hm, all_not_maskPositions n hm] at hbits
    exact hbits
  · have hbits := testValue_bits_at search hp hn fun operator => Condition.positionsOf_array operator h
    -- What asks for some bit was stated as the negation of what asks for none.
    rw [isBitSet_eq_testBit, List.not_all_eq_any_not, List.not_all_eq_any_not] at hbits
    simp only [Bool.not_not] at hbits
    exact hbits

/-- The bits of -6 are all set from the third one on, also far behind the word. -/
theorem testValue_bits_exact_negative :
    let d := Value.object [("flags", .int (-6))]
    let listed := [Value.int 3, .double (.finite false ⟨1029 <<< 52, by decide⟩), .int 4294967295]
    (isOperatorName "flags" = false ∧ (Path.ofString "flags").get? d = some (.int (-6)) ∧ 0 ≤ (5 : Int64).toInt ∧
      List.Forall₂ Value.IsPosition listed [3, 64, 4294967295]) ∧
      testValue (condition "flags" "$bitsAllClear" (.int 5)) none d = .ok true ∧
      testValue (condition "flags" "$bitsAllSet" (.array listed)) none d = .ok true := by
  intro d listed
  have hp : isOperatorName "flags" = false := by decide
  have hn : (Path.ofString "flags").get? d = some (.int (-6)) := rfl
  have hm : 0 ≤ (5 : Int64).toInt := by decide
  have hdouble : Double.magnitude (1029 <<< 52) = 64 := by
    rw [Double.magnitude_shiftLeft (by decide)]
    norm_num
  have hlisted : List.Forall₂ Value.IsPosition listed [3, 64, 4294967295] :=
    .cons ⟨by decide, rfl⟩ (.cons ⟨by decide, congrArg (fun q => some (Exact.ofRat q)) hdouble⟩
      (.cons ⟨by decide, rfl⟩ .nil))
  obtain ⟨hmask, hpositions⟩ := testValue_bits_exact none hp hn
  exact ⟨⟨hp, hn, hm, hlisted⟩, (hmask 5 hm).2.1, (hpositions listed _ hlisted).1⟩

end Query

end DocQuery
