import DocQuery.Proofs.Expr.Applied

/-! Parts of an array. A count takes that many items from the start, or from the end if it is negative. A position and a
    count take the run that starts at the position; a position beyond the array is moved to its end, and one that is
    counted back beyond its start to the start. -/

namespace DocQuery

open Value

namespace Items

variable {items : List Value} {count position : Int}

/-! ### First and last items -/

theorem takeEither_of_nonneg (h : 0 ≤ count) : takeEither items count = items.take count.toNat := if_pos h

theorem takeEither_of_neg (h : count < 0) :
    takeEither items count = (items.reverse.take count.natAbs).reverse := by
  rw [takeEither, if_neg (Int.not_le.mpr h), List.take_reverse, List.reverse_reverse]

theorem takeEither_suffix (h : count < 0) : takeEither items count <:+ items := by
  rw [takeEither, if_neg (Int.not_le.mpr h)]
  exact List.drop_suffix _ items

theorem length_takeEither (items : List Value) (count : Int) :
    (takeEither items count).length = min count.natAbs items.length := by
  rw [takeEither]
  split
  · rw [List.length_take]
    omega
  · rw [List.length_drop]
    omega

/-! ### Runs -/

/-- The start of a run, within the bounds of an array of this length. -/
def startWithin (position : Int) (length : Nat) : Int :=
  if position < 0 then max (length - position.natAbs) 0 else min position length

/-- A run is what lies between its start and its end. -/
theorem window_split (items : List Value) (position : Int) (count : Nat) : ∃ before after,
    items = before ++ window items position count ++ after ∧
      (before.length : Int) = startWithin position items.length ∧
      (window items position count).length = min count (items.length - before.length) := by
  obtain ⟨start, hstart⟩ : ∃ start,
      (if position < 0 then items.length - position.natAbs else position.toNat) = start := ⟨_, rfl⟩
  have hwindow : window items position count = (items.drop start).take count := by rw [window, hstart]
  refine ⟨items.take start, (items.drop start).drop count, ?_, ?_, ?_⟩
  · rw [hwindow, List.append_assoc, List.take_append_drop, List.take_append_drop]
  · rw [List.length_take, startWithin, ← hstart]
    split <;> omega
  · rw [hwindow, List.length_take, List.length_drop, List.length_take]
    omega

/-- The run behind the first items, if its count is large enough, has all the others. -/
theorem window_of_length_le {count : Nat} (hposition : 0 ≤ position) (hcount : items.length ≤ count) :
    window items position count = items.drop position.toNat := by
  rw [window, if_neg (Int.not_lt.mpr hposition), List.take_of_length_le]
  rw [List.length_drop]
  omega

/-! ### The operator -/

variable {v w : Value} {n p : Int64}

theorem slice_count (hv : v.toInt? = some n) : slice (.array items) v [] = .ok (.array (takeEither items n.toInt)) := by
  have harray : (array items).isNullish = false := rfl
  have hpresent : [array items, v].any isNullish = false := by simp [harray, isNullish_of_toInt? hv]
  rw [slice, hpresent]
  simp only [Bool.false_eq_true, if_false, expectInt_of_toInt? "$slice" hv, bind, Except.bind]
  rfl

theorem slice_run (hv : v.toInt? = some p) (hw : w.toInt? = some n) (hn : 0 < n.toInt) :
    slice (.array items) v [w] = .ok (.array (window items p.toInt n.toInt.toNat)) := by
  have harray : (array items).isNullish = false := rfl
  have hpresent : [array items, v, w].any isNullish = false := by
    simp [harray, isNullish_of_toInt? hv, isNullish_of_toInt? hw]
  rw [slice, hpresent]
  simp only [Bool.false_eq_true, if_false, expectInt_of_toInt? "$slice" hv, expectInt_of_toInt? "$slice" hw, bind,
    Except.bind, if_neg (Int.not_le.mpr hn)]
  rfl

end Items

namespace Expr

open Items

variable {a b c : Value} {s : Scope} {items : List Value}

theorem evaluate_slice_count {n : Int64} (ha : evaluate a s = .ok (.array items)) (hb : ComesToInt b s n) :
    evaluate (applied "$slice" [a, b]) s = .ok (.array (takeEither items n.toInt)) := by
  obtain ⟨v, hv, hn⟩ := hb
  rw [evaluate_ranged (f := slice) rfl rfl (.cons ha (.cons hv .nil)) (Nat.zero_le 1), slice_count hn]

theorem evaluate_slice_run {p n : Int64} (ha : evaluate a s = .ok (.array items)) (hb : ComesToInt b s p)
    (hc : ComesToInt c s n) (hpos : 0 < n.toInt) :
    evaluate (applied "$slice" [a, b, c]) s = .ok (.array (window items p.toInt n.toInt.toNat)) := by
  obtain ⟨v, hv, hp⟩ := hb
  obtain ⟨w, hw, hn⟩ := hc
  rw [evaluate_ranged (f := slice) rfl rfl (.cons ha (.cons hv (.cons hw .nil))) (Nat.le_refl 1), slice_run hp hn hpos]

/-- The first items and the run behind them are the whole array, a negative count takes the last items, and a position
    with a count takes the run that starts there, within the bounds of the array. -/
theorem evaluate_slice_parts (ha : evaluate a s = .ok (.array items)) :
    (∀ (b c : Value) (n all : Int64), ComesToInt b s n → ComesToInt c s all → 0 ≤ n.toInt →
      all.toInt = max (items.length : Int) 1 → ∃ first rest,
        evaluate (applied "$slice" [a, b]) s = .ok (.array first) ∧
        evaluate (applied "$slice" [a, b, c]) s = .ok (.array rest) ∧
        first ++ rest = items ∧ (first.length : Int) = min n.toInt items.length) ∧
    (∀ (b : Value) (n : Int64), ComesToInt b s n → n.toInt < 0 → ∃ last,
        evaluate (applied "$slice" [a, b]) s = .ok (.array last) ∧
        last <:+ items ∧ last.length = min n.toInt.natAbs items.length ∧
        last = (items.reverse.take n.toInt.natAbs).reverse) ∧
    ∀ (b c : Value) (p n : Int64), ComesToInt b s p → ComesToInt c s n → 0 < n.toInt → ∃ before run after,
        evaluate (applied "$slice" [a, b, c]) s = .ok (.array run) ∧
        items = before ++ run ++ after ∧ (before.length : Int) = startWithin p.toInt items.length ∧
        (run.length : Int) = min n.toInt (items.length - before.length) := by
  refine ⟨fun b c n all hb hc hn hall => ?_, fun b n hb hn => ?_, fun b c p n hb hc hn => ?_⟩
  · -- The run needs a count that is positive, which `max` provides also for an empty array.
    refine ⟨_, _, evaluate_slice_count ha hb, evaluate_slice_run ha hb hc (by omega), ?_, ?_⟩
    · rw [takeEither_of_nonneg hn, window_of_length_le hn (by omega), List.take_append_drop]
    · rw [length_takeEither]
      omega
  · exact ⟨_, evaluate_slice_count ha hb, takeEither_suffix hn, length_takeEither items n.toInt, takeEither_of_neg hn⟩
  · obtain ⟨before, after, hsplit, hbefore, hrun⟩ := window_split items p.toInt n.toInt.toNat
    have hwithin : before.length ≤ items.length := by
      rw [hsplit, List.append_assoc, List.length_append]
      exact Nat.le_add_right _ _
    refine ⟨before, _, after, evaluate_slice_run ha hb hc hn, hsplit, hbefore, ?_⟩
    rw [hrun]
    omega

/-- Five items in two parts, all of them for the lowest count, and the last two from a position for the highest. -/
theorem evaluate_slice_parts_five :
    let items := [1, 2, 3, 4, 5].map Value.int
    let a := Value.array items
    let s : Scope := { root := .null }
    evaluate a s = .ok (.array items) ∧
      (∃ first rest, evaluate (applied "$slice" [a, .int 2]) s = .ok (.array first) ∧
        evaluate (applied "$slice" [a, .int 2, .int 5]) s = .ok (.array rest) ∧ first ++ rest = items ∧
        first.length = 2) ∧
      evaluate (applied "$slice" [a, .int (-9223372036854775808)]) s = .ok (.array items) ∧
      ∃ before run after, evaluate (applied "$slice" [a, .int (-2), .int 9223372036854775807]) s = .ok (.array run) ∧
        items = before ++ run ++ after ∧ before.length = 3 ∧ run.length = 2 := by
  intro items a s
  have ha : evaluate a s = .ok (.array items) := rfl
  obtain ⟨hfirst, hlast, hrun⟩ := evaluate_slice_parts ha
  refine ⟨ha, ?_, ?_, ?_⟩
  · obtain ⟨first, rest, hvalue, hothers, hall, hlength⟩ := hfirst (.int 2) (.int 5) 2 5 (comesToInt_int 2 s)
      (comesToInt_int 5 s) (by decide +kernel) (by decide +kernel)
    exact ⟨first, rest, hvalue, hothers, hall, Int.ofNat.inj (hlength.trans (by decide +kernel))⟩
  · obtain ⟨last, hvalue, -, -, rfl⟩ := hlast (.int (-9223372036854775808)) _ (comesToInt_int _ s) (by decide +kernel)
    rwa [List.take_of_length_le (by decide +kernel), List.reverse_reverse] at hvalue
  · obtain ⟨before, run, after, hvalue, hall, hbefore, hlength⟩ := hrun (.int (-2)) (.int 9223372036854775807) _ _
      (comesToInt_int _ s) (comesToInt_int _ s) (by decide +kernel)
    have hthree : (before.length : Int) = 3 := hbefore.trans (by decide +kernel)
    rw [hthree] at hlength
    exact ⟨before, run, after, hvalue, hall, Int.ofNat.inj hthree, Int.ofNat.inj (hlength.trans (by decide +kernel))⟩

end Expr

end DocQuery
