import DocQuery.Accumulator
import DocQuery.Proofs.Expr.Applied
import DocQuery.Proofs.Worth

/-! Sums of numbers. The operator adds integers and doubles side by side, the accumulator goes over to doubles on the
    way; both come to an integer iff there are only integers and no sum of the first of them leaves the 64 bits, and it
    is the exact sum then. -/

namespace DocQuery

open Checked DocQuery.Expr

variable {values : List Value} {start total : Int64} {ns : List Int64}

/-! ### Sums that stay in range -/

/-- The exact sum of integers. -/
def exactSum (ns : List Int64) : Int := (ns.map Int64.toInt).sum

@[simp] theorem exactSum_nil : exactSum [] = 0 := rfl

@[simp] theorem exactSum_cons (n : Int64) (ns : List Int64) : exactSum (n :: ns) = n.toInt + exactSum ns := by
  rw [exactSum, List.map_cons, List.sum_cons, exactSum]

/-- No sum of the first integers leaves the 64 bits, counted from a start. -/
def StaysInRange (start : Int64) (ns : List Int64) : Prop :=
  ∀ first, first <+: ns → ∃ total : Int64, total.toInt = start.toInt + exactSum first

theorem staysInRange_nil (start : Int64) : StaysInRange start [] := by
  intro first hfirst
  obtain rfl := List.prefix_nil.mp hfirst
  exact ⟨start, by simp⟩

theorem staysInRange_cons {n : Int64} :
    StaysInRange start (n :: ns) ↔ ∃ next : Int64, next.toInt = start.toInt + n.toInt ∧ StaysInRange next ns := by
  constructor
  · intro h
    obtain ⟨next, hnext⟩ := h [n] (by simp)
    rw [exactSum_cons, exactSum_nil, add_zero] at hnext
    refine ⟨next, hnext, fun first hfirst => ?_⟩
    obtain ⟨total, htotal⟩ := h (n :: first) (List.cons_prefix_cons.mpr ⟨rfl, hfirst⟩)
    exact ⟨total, by rw [htotal, exactSum_cons, hnext, add_assoc]⟩
  · rintro ⟨next, hnext, h⟩ first hfirst
    rcases List.prefix_cons_iff.mp hfirst with rfl | ⟨shorter, rfl, hshorter⟩
    · exact ⟨start, by simp⟩
    · obtain ⟨total, htotal⟩ := h shorter hshorter
      exact ⟨total, by rw [htotal, exactSum_cons, hnext, add_assoc]⟩

/-- The values are integers with this sum, and no sum of the first of them leaves the 64 bits. -/
def SumsTo (start : Int64) (values : List Value) (total : Int) : Prop :=
  ∃ ns : List Int64, values = ns.map .int ∧ StaysInRange start ns ∧ total = start.toInt + exactSum ns

theorem sumsTo_nil {total : Int} : SumsTo start [] total ↔ total = start.toInt := by
  constructor
  · rintro ⟨ns, hns, -, rfl⟩
    obtain rfl := List.map_eq_nil_iff.mp hns.symm
    simp
  · rintro rfl
    exact ⟨[], rfl, staysInRange_nil start, by simp⟩

theorem sumsTo_int {n : Int64} {total : Int} : SumsTo start (.int n :: values) total ↔
    ∃ next : Int64, next.toInt = start.toInt + n.toInt ∧ SumsTo next values total := by
  constructor
  · rintro ⟨ns, hns, hrange, rfl⟩
    obtain ⟨m, ns, rfl, hm, rfl⟩ := List.map_eq_cons_iff.mp hns.symm
    obtain rfl := Value.int.inj hm
    obtain ⟨next, hnext, hrest⟩ := staysInRange_cons.mp hrange
    exact ⟨next, hnext, ns, rfl, hrest, by rw [exactSum_cons, hnext, add_assoc]⟩
  · rintro ⟨next, hnext, ns, rfl, hrest, rfl⟩
    exact ⟨n :: ns, rfl, staysInRange_cons.mpr ⟨next, hnext, hrest⟩, by rw [exactSum_cons, hnext, add_assoc]⟩

theorem not_sumsTo_double {x : Double} {total : Int} : ¬SumsTo start (.double x :: values) total := by
  rintro ⟨ns, hns, -⟩
  obtain ⟨m, ns, rfl, hm, -⟩ := List.map_eq_cons_iff.mp hns.symm
  exact nomatch hm

/-- A sum is exact if it is the sum of integers and no sum of the first of them leaves the 64 bits. -/
def SumsExactly (values : List Value) : Prop := ∃ total, SumsTo 0 values total

/-! ### Adding -/

theorem Number.exactly?_int {n : Int64} : exactly? (· + ·) start (.int n :: values) =
    (int64? (start.toInt + n.toInt)).bind fun next => exactly? (· + ·) next values := rfl

/-- The checked sum of numbers is the exact one. -/
theorem Number.exactly?_add (hnumbers : ∀ v ∈ values, v.isNumber) :
    exactly? (· + ·) start values = some total ↔ SumsTo start values total.toInt := by
  induction values generalizing start with
  | nil =>
    rw [sumsTo_nil, Int64.toInt_inj]
    exact Option.some_inj.trans eq_comm
  | cons v rest ih =>
    obtain ⟨hv, hrest⟩ := List.forall_mem_cons.mp hnumbers
    cases v with
    | int n =>
      rw [exactly?_int, sumsTo_int, Option.bind_eq_some_iff]
      exact exists_congr fun next => and_congr int64?_eq_some (ih hrest)
    | double x => exact iff_of_false (fun h => nomatch h) not_sumsTo_double
    | _ => exact nomatch hv

/-- A sum that has become a double stays one. -/
theorem Accumulator.foldlM_add_doubleSum (values : List Value) (x : Double) :
    ∃ y, values.foldlM add (.doubleSum x) = .ok (.doubleSum y) := by
  induction values generalizing x with
  | nil => exact ⟨x, rfl⟩
  | cons v rest ih => exact ih _

/-- A sum of numbers is an integer as long as the checked one is. -/
theorem Accumulator.foldlM_add_intSum (start : Int64) (hnumbers : ∀ v ∈ values, v.isNumber) :
    ∃ a, values.foldlM add (.intSum start) = .ok a ∧ match Number.exactly? (· + ·) start values with
      | some total => a = .intSum total
      | none => ∃ x, a = .doubleSum x := by
  -- The accumulator is an integer as long as the checked sum is one; once it is a double it stays one.
  induction values generalizing start with
  | nil => exact ⟨_, rfl, rfl⟩
  | cons v rest ih =>
    obtain ⟨hv, hrest⟩ := List.forall_mem_cons.mp hnumbers
    cases v with
    | int n =>
      have hstep : (Value.int n :: rest).foldlM add (.intSum start) =
          rest.foldlM add (addToInt start (.int n)) := rfl
      rw [Number.exactly?_int, hstep, addToInt]
      cases int64? (start.toInt + n.toInt) with
      | some next => exact ih _ hrest
      | none =>
        obtain ⟨x, hx⟩ := foldlM_add_doubleSum rest ((doubleOfInt start).add (doubleOfInt n))
        exact ⟨_, hx, x, rfl⟩
    | double x =>
      obtain ⟨y, hy⟩ := foldlM_add_doubleSum rest ((doubleOfInt start).add x)
      exact ⟨_, hy, y, rfl⟩
    | _ => exact nomatch hv

theorem Number.dateAmong_numbers (hnumbers : ∀ v ∈ values, v.isNumber) : dateAmong none values = .ok none := by
  induction values with
  | nil => rfl
  | cons v rest ih =>
    obtain ⟨hv, hrest⟩ := List.forall_mem_cons.mp hnumbers
    cases v with
    | int | double => exact ih hrest
    | _ => exact nomatch hv

/-! ### Values of sums -/

/-- The value is the checked sum as an integer, or a double if there is none. -/
def Value.IsSum (v : Value) (values : List Value) : Prop :=
  match Number.exactly? (· + ·) 0 values with
  | some total => v = .int total
  | none => ∃ x, v = .double x

theorem sumsExactly_iff (hnumbers : ∀ v ∈ values, v.isNumber) :
    SumsExactly values ↔ ∃ total : Int64, Number.exactly? (· + ·) 0 values = some total := by
  constructor
  · rintro ⟨_, ns, hns, hrange, rfl⟩
    obtain ⟨total, htotal⟩ := hrange ns List.prefix_rfl
    exact ⟨total, (Number.exactly?_add hnumbers).mpr ⟨ns, hns, hrange, htotal⟩⟩
  · rintro ⟨total, htotal⟩
    exact ⟨_, (Number.exactly?_add hnumbers).mp htotal⟩

theorem Value.IsSum.exact {v : Value} (h : v.IsSum values) (hnumbers : ∀ v ∈ values, v.isNumber) :
    ((∃ n, v = .int n) ↔ SumsExactly values) ∧ (∀ n : Int64, v = .int n ↔ SumsTo 0 values n.toInt) ∧
      (¬SumsExactly values → ∃ x, v = .double x) := by
  have hsums : ∀ n : Int64, SumsTo 0 values n.toInt ↔ Number.exactly? (· + ·) 0 values = some n :=
    fun _ => (Number.exactly?_add hnumbers).symm
  simp only [sumsExactly_iff hnumbers, hsums]
  unfold IsSum at h
  cases htotal : Number.exactly? (· + ·) 0 values with
  | some total =>
    rw [htotal] at h
    obtain rfl := h
    simp
  | none =>
    rw [htotal] at h
    obtain ⟨x, rfl⟩ := h
    simp

/-! ### The operator and the accumulator -/

/-- The sum of numbers by the operator. -/
theorem Number.exists_add (hnumbers : ∀ v ∈ values, v.isNumber) : ∃ v, add values = .ok v ∧ v.IsSum values := by
  have hnullish : values.any Value.isNullish = false := by
    refine List.any_eq_false.mpr fun v hv => ?_
    have hnumber := hnumbers v hv
    cases v with
    | int | double => exact Bool.false_ne_true
    | _ => exact nomatch hnumber
  unfold Value.IsSum
  rw [add, hnullish, dateAmong_numbers hnumbers]
  cases exactly? (· + ·) 0 values with
  | some total => exact ⟨_, rfl, rfl⟩
  | none => exact ⟨_, rfl, _, rfl⟩

/-- The expression that adds what some expressions come to. -/
def addition (es : List Value) : Value := .object [("$add", .array es)]

theorem evaluate_addition {es : List Value} {s : Scope}
    (h : List.Forall₂ (fun e v => evaluate e s = .ok v) es values) : evaluate (addition es) s = Number.add values :=
  show evaluate (applied "$add" es) s = _ from evaluate_variadic rfl rfl h

/-- What an accumulator has come to after some values. -/
def Accumulator.outcome (a : Accumulator) (values : List Value) : Checked Value := return (← values.foldlM add a).result

/-- The sum of numbers by the accumulator. -/
theorem Accumulator.exists_outcome_sum (hnumbers : ∀ v ∈ values, v.isNumber) :
    ∃ v, outcome (.intSum 0) values = .ok v ∧ v.IsSum values := by
  obtain ⟨a, ha, hsum⟩ := foldlM_add_intSum 0 hnumbers
  refine ⟨a.result, by rw [outcome, ha]; rfl, ?_⟩
  unfold Value.IsSum
  cases hexactly : Number.exactly? (· + ·) 0 values with
  | some total =>
    rw [hexactly] at hsum
    obtain rfl := hsum
    rfl
  | none =>
    rw [hexactly] at hsum
    obtain ⟨x, rfl⟩ := hsum
    exact ⟨x, rfl⟩

/-- The operator and the accumulator add numbers. Each gives an integer iff there are only integers and no sum of the
    first of them leaves the 64 bits, which is the exact sum then, and else a double. -/
theorem add_and_sum_exact (hnumbers : ∀ v ∈ values, v.isNumber) : ∃ added summed : Value,
    (∀ es s, List.Forall₂ (fun e v => evaluate e s = .ok v) es values → evaluate (addition es) s = .ok added) ∧
    (∃ a, Accumulator.ofName? "$sum" = some a ∧ a.outcome values = .ok summed) ∧
    ∀ v ∈ [added, summed], ((∃ n, v = .int n) ↔ SumsExactly values) ∧
      (∀ n : Int64, v = .int n ↔ SumsTo 0 values n.toInt) ∧ (¬SumsExactly values → ∃ x, v = .double x) := by
  obtain ⟨added, hadded, haddedSum⟩ := Number.exists_add hnumbers
  obtain ⟨summed, hsummed, hsummedSum⟩ := Accumulator.exists_outcome_sum hnumbers
  refine ⟨added, summed, fun es s hes => (evaluate_addition hes).trans hadded, ⟨_, rfl, hsummed⟩, fun v hv => ?_⟩
  rcases List.mem_pair.mp hv with rfl | rfl
  · exact haddedSum.exact hnumbers
  · exact hsummedSum.exact hnumbers

/-- The sum of these integers is zero, but it leaves the 64 bits on the way. In another order it does not. -/
theorem add_and_sum_exact_cancelling :
    let max : Int64 := 9223372036854775807
    let min : Int64 := -9223372036854775808
    let values := [max, 1, min].map Value.int
    let reordered := [max, min, 1].map Value.int
    let s : Scope := { root := .null }
    ((∀ v ∈ values, v.isNumber) ∧ ∀ v ∈ reordered, v.isNumber) ∧
      (∃ x, evaluate (addition values) s = .ok (.double x)) ∧ evaluate (addition reordered) s = .ok (.int 0) := by
  intro max min values reordered s
  have hnumbers : ∀ ns : List Int64, ∀ v ∈ ns.map Value.int, v.isNumber := fun ns => by simp [Value.isNumber]
  have hself : ∀ ns : List Int64, List.Forall₂ (fun e v => evaluate e s = .ok v) (ns.map .int) (ns.map .int) := fun ns =>
    List.forall₂_same.mpr fun v hv => by
      obtain ⟨n, -, rfl⟩ := List.mem_map.mp hv
      rfl
  refine ⟨⟨hnumbers _, hnumbers _⟩, ?_, ?_⟩
  · obtain ⟨added, _, hadded, -, hexact⟩ := add_and_sum_exact (hnumbers [max, 1, min])
    have hleaves : ¬SumsExactly values := by
      rintro ⟨total, ns, hns, hrange, -⟩
      obtain rfl : [max, 1, min] = ns := List.map_injective_iff.mpr (fun _ _ => Value.int.inj) hns
      obtain ⟨between, hbetween⟩ := hrange [max, 1] (by simp)
      have hbound := between.toInt_lt
      have hsum : exactSum [max, 1] = 2 ^ 63 := by decide +kernel
      rw [hbetween, hsum, Int64.toInt_zero] at hbound
      exact absurd hbound (by decide +kernel)
    obtain ⟨x, rfl⟩ := (hexact added List.mem_cons_self).2.2 hleaves
    exact ⟨x, hadded _ s (hself _)⟩
  · obtain ⟨added, _, hadded, -, hexact⟩ := add_and_sum_exact (hnumbers [max, min, 1])
    have hstays : StaysInRange 0 [max, min, 1] :=
      staysInRange_cons.mpr ⟨max, by decide +kernel, staysInRange_cons.mpr ⟨-1, by decide +kernel,
        staysInRange_cons.mpr ⟨0, by decide +kernel, staysInRange_nil 0⟩⟩⟩
    have hsum : SumsTo 0 reordered (0 : Int64).toInt := ⟨_, rfl, hstays, by decide +kernel⟩
    obtain rfl := ((hexact added List.mem_cons_self).2.1 0).mpr hsum
    exact hadded _ s (hself _)

end DocQuery
