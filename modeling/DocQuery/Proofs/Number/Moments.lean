import DocQuery.Proofs.Instant.Shift
import DocQuery.Proofs.Number.Sum

/-! Dates moved by sums of integers. The amounts are added as all numbers are: exactly as long as no sum of the first of
    them leaves the 64 bits, and in doubles if one does, which are rounded then. The date moves by the result, wherever
    it stands among the amounts, and a difference takes it back. -/

namespace DocQuery

open DocQuery.Expr Instant

variable {ns before after : List Int64} {m n : Int64} {t u : Instant}

/-! ### Amounts -/

/-- The sum of integers in doubles, one after the other. -/
def doubleSum (ns : List Int64) : Double := (ns.map doubleOfInt).foldl .add .zero

/-- The milliseconds that the amounts make: their sum, if no sum of the first of them leaves the 64 bits, and else their
    sum in doubles, rounded to a whole number, if that has 64 bits. -/
inductive MakeMillis (ns : List Int64) (millis : Int64) : Prop
  | exactly (h : StaysInRange 0 ns) (hsum : millis.toInt = exactSum ns)
  | inDoubles (h : ¬StaysInRange 0 ns) (hfinite : (doubleSum ns).round.isFinite)
    (hsum : (doubleSum ns).round.toInt = millis.toInt)

theorem MakeMillis.unique (hm : MakeMillis ns m) (hn : MakeMillis ns n) : m = n := by
  rw [← Int64.toInt_inj]
  rcases hm with ⟨hm, hsum⟩ | ⟨hm, -, hsum⟩ <;> rcases hn with ⟨hn, hsum'⟩ | ⟨hn, -, hsum'⟩
  · rw [hsum, hsum']
  · exact absurd hm hn
  · exact absurd hn hm
  · rw [← hsum, hsum']

namespace Number

theorem isNumber_ints (ns : List Int64) : ∀ v ∈ ns.map Value.int, v.isNumber := by
  simp [Value.isNumber]

theorem exactly?_ints : exactly? (· + ·) 0 (ns.map .int) = some m ↔ StaysInRange 0 ns ∧ m.toInt = exactSum ns := by
  rw [exactly?_add (isNumber_ints ns)]
  constructor
  · rintro ⟨others, hothers, hrange, hsum⟩
    obtain rfl : ns = others := List.map_injective_iff.mpr (fun _ _ => Value.int.inj) hothers
    exact ⟨hrange, by simpa using hsum⟩
  · rintro ⟨hrange, hsum⟩
    exact ⟨ns, rfl, hrange, by simpa using hsum⟩

theorem exactly?_skip_date (f : Int → Int → Int) (start : Int64) (xs ys : List Value) :
    exactly? f start (xs ++ .date t :: ys) = exactly? f start (xs ++ ys) := by
  rw [exactly?, exactly?, List.foldlM_append, List.foldlM_append]
  rfl

theorem inDoubles_skip_date :
    inDoubles .add .zero (before.map .int ++ .date t :: after.map .int) = doubleSum (before ++ after) := by
  have hints : ∀ ns : List Int64, (ns.map Value.int).filterMap Value.toDouble? = ns.map doubleOfInt := fun ns => by
    rw [List.filterMap_map, ← List.filterMap_eq_map]
    rfl
  have hdate : (Value.date t).toDouble? = none := rfl
  rw [inDoubles, List.filterMap_append, List.filterMap_cons, hdate, hints, hints, ← List.map_append, doubleSum]

theorem dateAmong_ints_append (found : Option Instant) (ns : List Int64) (rest : List Value) :
    dateAmong found (ns.map .int ++ rest) = dateAmong found rest := by
  induction ns with
  | nil => rfl
  | cons n ns ih => exact ih

theorem dateAmong_date : dateAmong none (before.map .int ++ .date t :: after.map .int) = .ok (some t) := by
  rw [dateAmong_ints_append, dateAmong]
  simpa [dateAmong] using dateAmong_ints_append (some t) after []

/-! ### Moving a date -/

theorem shift_cases (ht : t.inLeapSecond = false) (operator : String) (millis : Int) (forward : Bool) :
    (∃ u, t.IsMoved (if forward then millis else -millis) u ∧ shift operator t millis forward = .ok (.date u)) ∨
      ¬Spans (t.total + (if forward then millis else -millis) * 1000000) ∧
        shift operator t millis forward = .error (.dateOutOfRange operator t millis) := by
  rw [shift]
  cases hshift : t.shift? (if forward then millis else -millis) with
  | some u => exact .inl ⟨u, (shift?_eq_some_iff ht).mp hshift, rfl⟩
  | none => exact .inr ⟨(shift?_eq_none_iff ht).mp hshift, rfl⟩

theorem millisOf_double_cases (operator : String) (x : Double) :
    (∃ n : Int64, x.round.isFinite ∧ x.round.toInt = n.toInt ∧ millisOf operator (.double x) = .ok n.toInt) ∨
      (∀ n : Int64, x.round.isFinite → x.round.toInt ≠ n.toInt) ∧
        millisOf operator (.double x) = .error (.offsetOutOfRange operator x.round) := by
  have hround : (Value.double x).expectDouble operator = .ok x := rfl
  cases hfinite : x.round.isFinite with
  | false => exact .inr ⟨fun _ h => Bool.noConfusion h, by simp [millisOf, hround, hfinite, bind, Except.bind]⟩
  | true =>
    cases hint : int64? x.round.toInt with
    | some n =>
      refine .inl ⟨n, rfl, (int64?_eq_some.mp hint).symm, ?_⟩
      simp [millisOf, hround, hfinite, hint, bind, Except.bind]
    | none =>
      refine .inr ⟨fun n _ hn => ?_, by simp [millisOf, hround, hfinite, hint, bind, Except.bind]⟩
      exact Option.some_ne_none n ((int64?_eq_some.mpr hn.symm).symm.trans hint)

/-- The sum of a date and integers is the date moved by what these make. -/
theorem add_date : add (before.map .int ++ .date t :: after.map .int) =
    match exactly? (· + ·) 0 ((before ++ after).map .int) with
    | some n => shift "$add" t n.toInt true
    | none => (millisOf "$add" (.double (doubleSum (before ++ after)))).bind fun n => shift "$add" t n true := by
  have hpresent : (before.map Value.int ++ Value.date t :: after.map Value.int).any Value.isNullish = false := by
    simp [Value.isNullish]
  rw [add, hpresent, dateAmong_date, exactly?_skip_date, ← List.map_append, inDoubles_skip_date]
  cases exactly? (· + ·) 0 ((before ++ after).map .int) <;> rfl

theorem shift_makeMillis_cases (ht : t.inLeapSecond = false) (hm : MakeMillis ns m) :
    (∃ u, t.IsMoved m.toInt u ∧ shift "$add" t m.toInt true = .ok (.date u)) ∨
      (∀ n, MakeMillis ns n → ¬Spans (t.total + n.toInt * 1000000)) ∧
        ∃ fault, shift "$add" t m.toInt true = .error fault ∧ fault.kind = .arithmetic := by
  rcases shift_cases ht "$add" m.toInt true with hmoved | ⟨hout, hvalue⟩
  · exact .inl hmoved
  · exact .inr ⟨fun n hn => hm.unique hn ▸ hout, _, hvalue, rfl⟩

theorem add_date_cases (before after : List Int64) (ht : t.inLeapSecond = false) :
    (∃ m u, MakeMillis (before ++ after) m ∧ t.IsMoved m.toInt u ∧
      add (before.map .int ++ .date t :: after.map .int) = .ok (.date u)) ∨
    (∀ m, MakeMillis (before ++ after) m → ¬Spans (t.total + m.toInt * 1000000)) ∧
      ∃ fault, add (before.map .int ++ .date t :: after.map .int) = .error fault ∧ fault.kind = .arithmetic := by
  rw [add_date]
  cases hexactly : exactly? (· + ·) 0 ((before ++ after).map .int) with
  | some m =>
    obtain ⟨hrange, hsum⟩ := exactly?_ints.mp hexactly
    have hm : MakeMillis (before ++ after) m := .exactly hrange hsum
    exact (shift_makeMillis_cases ht hm).imp_left fun ⟨u, hu⟩ => ⟨m, u, hm, hu⟩
  | none =>
    -- A checked sum fails only where one of the sums on the way does not fit, never at the end alone.
    have hleaves : ¬StaysInRange 0 (before ++ after) := fun hrange => by
      obtain ⟨m, hm⟩ := hrange _ List.prefix_rfl
      have hsome := exactly?_ints.mpr ⟨hrange, by simpa using hm⟩
      exact Option.some_ne_none m (hsome.symm.trans hexactly)
    have hdouble := millisOf_double_cases "$add" (doubleSum (before ++ after))
    rcases hdouble with ⟨m, hfinite, hsum, hmillis⟩ | ⟨hnone, hmillis⟩
    · have hm : MakeMillis (before ++ after) m := .inDoubles hleaves hfinite hsum
      rw [hmillis]
      exact (shift_makeMillis_cases ht hm).imp_left fun ⟨u, hu⟩ => ⟨m, u, hm, hu⟩
    · rw [hmillis]
      refine .inr ⟨fun m hmakes => ?_, _, rfl, rfl⟩
      rcases hmakes with ⟨hrange, -⟩ | ⟨-, hfinite, hsum⟩
      · exact absurd hrange hleaves
      · exact absurd hsum (hnone m hfinite)

/-! ### Taking it back -/

theorem subtract_date_int (ht : t.inLeapSecond = false) (h : t.IsMoved m.toInt u) :
    subtract (.date u) (.int m) = .ok (.date t) := by
  have hback : u.shift? (-m.toInt) = some t := (shift?_eq_some_iff h.ordinary).mpr (h.symm ht)
  have hvalue : subtract (.date u) (.int m) = shift "$subtract" u m.toInt false := rfl
  rw [hvalue, shift, if_neg Bool.false_ne_true, hback]

theorem subtract_dates (ht : t.inLeapSecond = false) (h : t.IsMoved m.toInt u) :
    subtract (.date u) (.date t) = .ok (.int m) := by
  have hvalue : subtract (.date u) (.date t) = .ok (.int (Int64.ofInt (u.millisSince t))) := rfl
  rw [hvalue, h.millisSince ht, Int64.ofInt_toInt]

end Number

namespace Expr

variable {s : Scope} {es : List Value}

/-- From a date that another has moved to, the milliseconds lead back to the other, and the other to these. -/
theorem evaluate_subtract_moved {e f : Value} (ht : t.inLeapSecond = false) (hu : t.IsMoved m.toInt u)
    (he : evaluate e s = .ok (.date u)) :
    (evaluate f s = .ok (.int m) → evaluate (applied "$subtract" [e, f]) s = .ok (.date t)) ∧
      (evaluate f s = .ok (.date t) → evaluate (applied "$subtract" [e, f]) s = .ok (.int m)) := by
  constructor
  · intro hf
    rw [evaluate_binary (f := Number.subtract) rfl rfl (.cons he (.cons hf .nil)), Number.subtract_date_int ht hu]
  · intro hf
    rw [evaluate_binary (f := Number.subtract) rfl rfl (.cons he (.cons hf .nil)), Number.subtract_dates ht hu]

/-- A date outside leap seconds that is added to integers, at any place among them, moves by the milliseconds that these
    make. There is a fault iff they make none or the date would leave the range of dates. From a date that comes out,
    the milliseconds lead back to the first date, and the first date to the milliseconds. -/
theorem evaluate_add_date (ht : t.inLeapSecond = false)
    (hes : ComeTo s es (before.map .int ++ .date t :: after.map .int)) :
    (∀ m, MakeMillis (before ++ after) m → Spans (t.total + m.toInt * 1000000) →
      ∃ u, t.IsMoved m.toInt u ∧ evaluate (addition es) s = .ok (.date u)) ∧
    ((∀ m, MakeMillis (before ++ after) m → ¬Spans (t.total + m.toInt * 1000000)) →
      ∃ fault, evaluate (addition es) s = .error fault ∧ fault.kind = .arithmetic) ∧
    ∀ u, evaluate (addition es) s = .ok (.date u) → ∃ m, MakeMillis (before ++ after) m ∧ t.IsMoved m.toInt u ∧
      ∀ (s' : Scope) (e f : Value), evaluate e s' = .ok (.date u) →
        (evaluate f s' = .ok (.int m) → evaluate (applied "$subtract" [e, f]) s' = .ok (.date t)) ∧
        (evaluate f s' = .ok (.date t) → evaluate (applied "$subtract" [e, f]) s' = .ok (.int m)) := by
  rw [evaluate_addition hes]
  rcases Number.add_date_cases before after ht with ⟨m, u, hm, hu, hadd⟩ | ⟨hout, fault, hadd, hkind⟩
  · refine ⟨fun n hn _ => ⟨u, hm.unique hn ▸ hu, hadd⟩, fun hout => ?_, fun v hv => ?_⟩
    · exact absurd (exists_isMoved_iff.mp ⟨u, hu⟩) (hout m hm)
    · obtain rfl : u = v := by simpa using hadd.symm.trans hv
      exact ⟨m, hm, hu, fun s' e f he => evaluate_subtract_moved ht hu he⟩
  · refine ⟨fun n hn hspans => absurd hspans (hout n hn), fun _ => ⟨fault, hadd, hkind⟩, fun v hv => ?_⟩
    exact nomatch hadd.symm.trans hv

/-- The largest amount and the least come to one millisecond back. The third takes the date over the start of 1970. -/
theorem evaluate_add_date_cancelling :
    let max : Int64 := 9223372036854775807
    let before := [max]
    let after := [-9223372036854775808, 1001]
    let t : Instant := ⟨-1, 999999999, by decide, by decide⟩
    let u : Instant := ⟨0, 999999999, by decide, by decide⟩
    let es := before.map Value.int ++ .date t :: after.map Value.int
    let s : Scope := { root := .null }
    (t.inLeapSecond = false ∧ ComeTo s es es) ∧ evaluate (addition es) s = .ok (.date u) ∧
      evaluate (applied "$subtract" [.date u, .int 1000]) s = .ok (.date t) ∧
      evaluate (applied "$subtract" [.date u, .date t]) s = .ok (.int 1000) := by
  intro max before after t u es s
  have hes : ComeTo s es es := .cons rfl (.cons rfl (.cons rfl (.cons rfl .nil)))
  have hmakes : MakeMillis (before ++ after) 1000 := .exactly
    (staysInRange_cons.mpr ⟨max, by decide +kernel, staysInRange_cons.mpr ⟨-1, by decide +kernel,
      staysInRange_cons.mpr ⟨1000, by decide +kernel, staysInRange_nil 1000⟩⟩⟩) (by decide +kernel)
  obtain ⟨hmoves, -, hback⟩ := evaluate_add_date (t := t) rfl hes
  obtain ⟨v, hv, hadd⟩ := hmoves 1000 hmakes (by decide +kernel)
  obtain rfl : v = u := Instant.eq_of_total hv.ordinary rfl (hv.total_eq.trans (by decide +kernel))
  obtain ⟨m, hm, -, hsubtract⟩ := hback u hadd
  obtain rfl := hm.unique hmakes
  exact ⟨⟨rfl, hes⟩, hadd, (hsubtract s _ _ rfl).1 rfl, (hsubtract s _ _ rfl).2 rfl⟩

/-- The exact sum may lie in the 64 bits and not be added: if a sum of the first amounts leaves them, the double that it
    is continued in has lost the last digits. -/
theorem not_evaluate_add_date_exact : ¬∀ (before after : List Int64) (total : Int64) (t u : Instant),
    t.inLeapSecond = false → total.toInt = exactSum (before ++ after) → t.IsMoved total.toInt u →
      evaluate (addition (before.map .int ++ .date t :: after.map .int)) { root := .null } = .ok (.date u) := by
  intro h
  let max : Int64 := 9223372036854775807
  let after : List Int64 := [max, 1, -9223372036854775807]
  let t : Instant := ⟨0, 0, by decide, by decide⟩
  let u : Instant := ⟨0, 1000000, by decide, by decide⟩
  let es := ([] : List Int64).map Value.int ++ .date t :: after.map Value.int
  have hes : ComeTo { root := .null } es es := .cons rfl (.cons rfl (.cons rfl (.cons rfl .nil)))
  have hmoved : t.IsMoved (1 : Int64).toInt u := ⟨rfl, by decide +kernel⟩
  have hadd : Number.add es = .ok (.date u) := by
    rw [← evaluate_addition hes]
    exact h [] after 1 t u rfl (by decide +kernel) hmoved
  rcases Number.add_date_cases [] after (t := t) rfl with ⟨m, v, hm, hv, hvalue⟩ | ⟨-, fault, hvalue, -⟩
  · have hu : v = u := by simpa using hvalue.symm.trans hadd
    rw [hu] at hv
    obtain rfl : m = 1 := Int64.toInt_inj.mp ((hv.millisSince rfl).symm.trans (hmoved.millisSince rfl))
    -- The amounts leave the 64 bits, and in doubles they come to zero.
    rcases hm with ⟨hrange, hsum⟩ | ⟨-, -, hsum⟩
    · exact absurd (Number.exactly?_ints.mpr ⟨hrange, hsum⟩) (by decide +kernel)
    · exact absurd hsum (by decide +kernel)
  · exact nomatch hvalue.symm.trans hadd

end Expr

end DocQuery
