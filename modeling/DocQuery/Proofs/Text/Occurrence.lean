import Mathlib.Data.List.Basic
import DocQuery.Proofs.Expr.Applied

/-! Occurrences of a text in another one. A search goes through the positions of a window and stops at the first where
    the text stands and ends within the window. Every part of the text that is compared lies within it, and so is as
    long as the text that is searched for. -/

namespace DocQuery

namespace Text

variable {text needle : List Char} {start stop i : Nat}

/-- The needle stands at the position, which is not before the start of the window, and ends by its end. -/
structure OccursIn (text needle : List Char) (start stop i : Nat) : Prop where
  after : start ≤ i
  within : i + needle.length ≤ stop
  part : (text.drop i).take needle.length = needle

theorem isPrefixOf_drop_iff : needle.isPrefixOf (text.drop i) ↔ (text.drop i).take needle.length = needle := by
  rw [List.isPrefixOf_iff_prefix, List.prefix_iff_eq_take, eq_comm]

/-- The positions that a search goes through. -/
theorem drop_range (start stop : Nat) : (List.range (stop + 1)).drop start = List.range' start (stop + 1 - start) := by
  rw [List.range_eq_range', List.drop_range', Nat.mul_one, Nat.zero_add]

theorem indexIn?_test_iff : (decide (i + needle.length ≤ stop) && needle.isPrefixOf (text.drop i)) ∧ start ≤ i ↔
    OccursIn text needle start stop i := by
  rw [Bool.and_eq_true, decide_eq_true_eq, isPrefixOf_drop_iff]
  exact ⟨fun ⟨⟨hwithin, hpart⟩, hafter⟩ => ⟨hafter, hwithin, hpart⟩, fun h => ⟨⟨h.within, h.part⟩, h.after⟩⟩

theorem indexIn?_eq_some : indexIn? text needle start stop = some i ↔
    OccursIn text needle start stop i ∧ ∀ j, OccursIn text needle start stop j → i ≤ j := by
  rw [indexIn?, drop_range, List.find?_range'_eq_some, List.mem_range'_1]
  constructor
  · rintro ⟨htest, hrange, hfirst⟩
    refine ⟨indexIn?_test_iff.mp ⟨htest, hrange.1⟩, fun j hj => Nat.not_lt.mp fun hlt => ?_⟩
    have hfalse := hfirst j hj.after hlt
    rw [(indexIn?_test_iff.mpr hj).1] at hfalse
    exact Bool.noConfusion hfalse
  · rintro ⟨hi, hleast⟩
    refine ⟨(indexIn?_test_iff.mpr hi).1, ⟨hi.after, ?_⟩, fun j hafter hlt => ?_⟩
    · have := hi.after
      have := hi.within
      omega
    · rw [Bool.not_eq_true']
      exact Bool.eq_false_iff.mpr fun htest =>
        absurd (hleast j (indexIn?_test_iff.mp ⟨htest, hafter⟩)) (Nat.not_le.mpr hlt)

theorem indexIn?_eq_none : indexIn? text needle start stop = none ↔ ∀ i, ¬OccursIn text needle start stop i := by
  rw [indexIn?, drop_range, List.find?_range'_eq_none]
  constructor
  · intro hnone i hi
    have hbound := hi.within
    have hafter := hi.after
    have hfalse := hnone i hafter (by omega)
    rw [(indexIn?_test_iff.mpr hi).1] at hfalse
    exact Bool.noConfusion hfalse
  · intro hnone i hafter _
    rw [Bool.not_eq_true']
    exact Bool.eq_false_iff.mpr fun htest => hnone i (indexIn?_test_iff.mp ⟨htest, hafter⟩)

/-- What is compared lies within the text. -/
theorem length_part (hstop : stop ≤ text.length) (h : i + needle.length ≤ stop) :
    ((text.drop i).take needle.length).length = needle.length := by
  rw [List.length_take, List.length_drop]
  omega

end Text

/-! ### The operators -/

namespace Strings

open Value

variable {text needle : String} {v w : Value} {vs : List Value} {default : Nat} {i n : Int64}

theorem bound_of_toInt? (hv : v.toInt? = some n) : bound default (some v) = .ok n.toInt.toNat := by
  rw [bound, expectInt_of_toInt? "$indexOfCP" hv]
  rfl

theorem indexOf_eq {start stop : Nat} (hstart : bound 0 vs[0]? = .ok start)
    (hstop : bound text.toList.length vs[1]? = .ok stop) : indexOf (.string text) (.string needle) vs =
      .ok (.int ((Text.indexIn? text.toList needle.toList start (min stop text.toList.length)).elim (-1)
        fun i => Int64.ofInt i)) := by
  rw [indexOf]
  simp only [isNullish, expectString, bind, Except.bind, hstart, hstop, Bool.false_eq_true, if_false]
  split
  · next hsome =>
    rw [hsome]
    rfl
  · next hnone =>
    rw [hnone]
    rfl

theorem substring_of_nonneg (hi : 0 ≤ i.toInt) (hn : 0 ≤ n.toInt) :
    substring (.string text) (.int i) (.int n) =
      .ok (.string (String.ofList ((text.toList.drop i.toInt.toNat).take n.toInt.toNat))) := by
  rw [substring, expectInt_of_toInt? "$substrCP" rfl, expectInt_of_toInt? "$substrCP" rfl]
  simp only [textOf, bind, Except.bind, if_neg (Int.not_lt.mpr hi), if_neg (Int.not_lt.mpr hn)]
  rfl

end Strings

namespace Expr

open Strings Text Value

variable {e p : Value} {s : Scope} {text needle : String} {bounds : List Value} {low high size : Nat}
  {i width : Int64}

/-- The window that bounds leave in a text of this size. A bound below zero counts as zero, and the window ends with the
    text at the latest. -/
inductive Window (s : Scope) (size : Nat) : List Value → Nat → Nat → Prop
  | whole : Window s size [] 0 size
  | after {a : Value} {start : Int64} (ha : ComesToInt a s start) : Window s size [a] start.toInt.toNat size
  | between {a b : Value} {start stop : Int64} (ha : ComesToInt a s start) (hb : ComesToInt b s stop) :
    Window s size [a, b] start.toInt.toNat (min stop.toInt.toNat size)

theorem Window.exists_bounds (h : Window s size bounds low high) : ∃ vs stop, ComeTo s bounds vs ∧ vs.length ≤ 2 ∧
    bound 0 vs[0]? = .ok low ∧ bound size vs[1]? = .ok stop ∧ high = min stop size := by
  cases h with
  | whole => exact ⟨[], high, .nil, Nat.zero_le 2, rfl, rfl, (Nat.min_self high).symm⟩
  | after ha =>
    obtain ⟨v, hv, hstart⟩ := ha
    exact ⟨[v], high, .cons hv .nil, Nat.le_succ 1, bound_of_toInt? hstart, rfl, (Nat.min_self high).symm⟩
  | between ha hb =>
    obtain ⟨v, hv, hstart⟩ := ha
    obtain ⟨w, hw, hstop⟩ := hb
    exact ⟨[v, w], _, .cons hv (.cons hw .nil), Nat.le_refl 2, bound_of_toInt? hstart, bound_of_toInt? hstop, rfl⟩

/-- The part of the text that has the needle's length is the needle at this position of the window. -/
def FindsAt (e : Value) (s : Scope) (needle : String) (width : Int64) (low high : Nat) (i : Int64) : Prop :=
  low ≤ i.toInt ∧ i.toInt + width.toInt ≤ high ∧
    evaluate (applied "$substrCP" [e, .int i, .int width]) s = .ok (.string needle)

theorem evaluate_substring (he : evaluate e s = .ok (.string text)) (hi : 0 ≤ i.toInt) (hwidth : 0 ≤ width.toInt) :
    evaluate (applied "$substrCP" [e, .int i, .int width]) s =
      .ok (.string (String.ofList ((text.toList.drop i.toInt.toNat).take width.toInt.toNat))) := by
  rw [evaluate_ternary (f := substring) rfl rfl (.cons he (.cons rfl (.cons rfl .nil))), substring_of_nonneg hi hwidth]

/-- The positions where the part is the needle are the occurrences in the window. -/
theorem findsAt_iff (he : evaluate e s = .ok (.string text)) (hwidth : width.toInt = needle.toList.length) :
    FindsAt e s needle width low high i ↔ ∃ k : Nat, i.toInt = k ∧ OccursIn text.toList needle.toList low high k := by
  have hnat : width.toInt.toNat = needle.toList.length := by omega
  -- A part is as long as the needle unless the text ends before, where it cannot be the needle.
  have hpart : ∀ k : Nat, i.toInt = k → (evaluate (applied "$substrCP" [e, .int i, .int width]) s = .ok (.string needle) ↔
      (text.toList.drop k).take needle.toList.length = needle.toList) := fun k hk => by
    rw [evaluate_substring he (by omega) (by omega), hnat, hk, Int.toNat_natCast, Except.ok.injEq, string.injEq,
      ← String.toList_inj, String.toList_ofList]
  constructor
  · rintro ⟨hlow, hhigh, hvalue⟩
    obtain ⟨k, hk⟩ := Int.eq_ofNat_of_zero_le (Int.le_trans (Int.natCast_nonneg low) hlow)
    exact ⟨k, hk, by omega, by omega, (hpart k hk).mp hvalue⟩
  · rintro ⟨k, hk, hoccurs⟩
    have hafter := hoccurs.after
    have hwithin := hoccurs.within
    exact ⟨by omega, by omega, (hpart k hk).mpr hoccurs.part⟩

/-- The part at a position of the window, which the search compares with the needle, is as long as the needle. -/
theorem evaluate_substring_within (he : evaluate e s = .ok (.string text)) (hhigh : high ≤ text.toList.length)
    (hwidth : width.toInt = needle.toList.length) (hstart : low ≤ i.toInt) (hend : i.toInt + width.toInt ≤ high) :
    ∃ part, evaluate (applied "$substrCP" [e, .int i, .int width]) s = .ok (.string part) ∧
      part.toList.length = needle.toList.length := by
  refine ⟨_, evaluate_substring he (by omega) (by omega), ?_⟩
  rw [String.toList_ofList, show width.toInt.toNat = needle.toList.length by omega]
  exact length_part (Nat.le_refl _) (by omega)

theorem evaluate_indexOf (he : evaluate e s = .ok (.string text)) (hp : evaluate p s = .ok (.string needle))
    (h : Window s text.toList.length bounds low high) : evaluate (applied "$indexOfCP" (e :: p :: bounds)) s =
      .ok (.int ((indexIn? text.toList needle.toList low high).elim (-1) fun i => Int64.ofInt i)) := by
  obtain ⟨vs, stop, hvs, hcount, hstart, hstop, rfl⟩ := h.exists_bounds
  rw [evaluate_ranged (f := indexOf) rfl rfl (.cons he (.cons hp hvs)) hcount, indexOf_eq hstart hstop]

theorem Window.high_le (h : Window s size bounds low high) : high ≤ size := by
  obtain ⟨_, _, _, _, _, _, rfl⟩ := h.exists_bounds
  exact Nat.min_le_right _ _

/-- A search gives the least position of its window where the part of the needle's length is the needle, and -1 if there
    is none. The parts that it compares with the needle are all as long as the needle, and lie within the text. -/
theorem evaluate_indexOf_least (he : evaluate e s = .ok (.string text)) (hp : evaluate p s = .ok (.string needle))
    (hfits : text.toList.length ≤ Int64.maxValue.toInt) (hwidth : width.toInt = needle.toList.length)
    (h : Window s text.toList.length bounds low high) :
    (∃ found : Int64, evaluate (applied "$indexOfCP" (e :: p :: bounds)) s = .ok (.int found) ∧
      ((FindsAt e s needle width low high found ∧ ∀ i, FindsAt e s needle width low high i → found ≤ i) ∨
        (found = -1 ∧ ∀ i, ¬FindsAt e s needle width low high i))) ∧
    ∀ i : Int64, low ≤ i.toInt → i.toInt + width.toInt ≤ high →
      ∃ part, evaluate (applied "$substrCP" [e, .int i, .int width]) s = .ok (.string part) ∧
        part.toList.length = needle.toList.length := by
  refine ⟨⟨_, evaluate_indexOf he hp h, ?_⟩, fun i => evaluate_substring_within he h.high_le hwidth⟩
  simp only [findsAt_iff he hwidth]
  cases hfound : indexIn? text.toList needle.toList low high with
  | some k =>
    obtain ⟨hoccurs, hleast⟩ := indexIn?_eq_some.mp hfound
    -- A position of the text fits the result.
    have hk : (Int64.ofInt k).toInt = k := by
      have := hoccurs.within
      have := h.high_le
      have : Int64.maxValue.toInt = 9223372036854775807 := rfl
      exact Int64.toInt_ofInt_of_le (by omega) (by omega)
    refine .inl ⟨⟨k, hk, hoccurs⟩, fun i ⟨j, hj, hother⟩ => ?_⟩
    rw [Option.elim_some, Int64.le_iff_toInt_le, hk, hj]
    exact Int.ofNat_le.mpr (hleast j hother)
  | none => exact .inr ⟨rfl, fun i ⟨k, _, hoccurs⟩ => indexIn?_eq_none.mp hfound k hoccurs⟩

/-- In a window that starts after the first occurrence, the second one is found. -/
theorem evaluate_indexOf_least_second :
    let s : Scope := { root := .null }
    let e := Value.string "abcabc"
    evaluate e s = .ok (.string "abcabc") ∧ Window s 6 [.int 3] 3 6 ∧
      evaluate (applied "$indexOfCP" [e, .string "c", .int 3]) s = .ok (.int 5) ∧ FindsAt e s "c" 1 3 6 5 ∧
      ∀ i, FindsAt e s "c" 1 3 6 i → 5 ≤ i := by
  intro s e
  have hwindow : Window s 6 [.int 3] 3 6 := .after (comesToInt_int 3 s)
  have hwidth : (1 : Int64).toInt = "c".toList.length := by decide +kernel
  obtain ⟨⟨found, hfound, hcase⟩, -⟩ := evaluate_indexOf_least (e := e) (p := .string "c") (s := s) rfl rfl
    (by decide +kernel) hwidth hwindow
  have hfive : evaluate (applied "$indexOfCP" [e, .string "c", .int 3]) s = .ok (.int 5) := by
    have hsome : indexIn? "abcabc".toList "c".toList 3 6 = some 5 := by decide +kernel
    rw [evaluate_indexOf rfl rfl hwindow, hsome]
    rfl
  obtain rfl : found = 5 := by
    rw [hfive] at hfound
    simpa using hfound.symm
  refine ⟨rfl, hwindow, hfive, ?_⟩
  rcases hcase with hleast | ⟨habsent, -⟩
  · exact hleast
  · exact absurd habsent (by decide)

end Expr

end DocQuery
