import DocQuery.Proofs.Value.Millis

/-! Instants moved by milliseconds. Outside leap seconds an instant is known by its nanoseconds since the start of 1970,
    to which a move adds and from which a difference is read. A move fails only where there is no instant left. -/

namespace DocQuery.Instant

variable {t u : Instant} {seconds millis : Int} {nanos : Nat}

/-- Nanoseconds since the start of 1970, without any leap seconds. -/
def total (t : Instant) : Int := t.seconds * 1000000000 + t.nanos

/-- `u` comes by this many milliseconds after `t`, or before it if there are less than none, and in no leap second. -/
@[mk_iff] structure IsMoved (t : Instant) (millis : Int) (u : Instant) : Prop where
  ordinary : u.inLeapSecond = false
  total_eq : u.total = t.total + millis * 1000000

/-- The nanoseconds lie between the first and the last second that there are. -/
def Spans (total : Int) : Prop := minSecond * 1000000000 ≤ total ∧ total < (maxSecond + 1) * 1000000000

instance (total : Int) : Decidable (Spans total) := inferInstanceAs (Decidable (_ ∧ _))

theorem inLeapSecond_eq_false : t.inLeapSecond = false ↔ t.nanos < 1000000000 := by
  rw [inLeapSecond, decide_eq_false_iff_not, Nat.not_le, billion]

theorem ofParts?_eq_some_iff : ofParts? seconds nanos = some t ↔ t.seconds = seconds ∧ t.nanos = nanos := by
  refine ⟨ofParts?_eq_some, ?_⟩
  rintro ⟨rfl, rfl⟩
  rw [ofParts?, dif_pos ⟨t.inRange, t.nanos_lt⟩]

/-- An instant outside leap seconds is known by its nanoseconds. -/
theorem eq_of_total (ht : t.inLeapSecond = false) (hu : u.inLeapSecond = false) (h : t.total = u.total) : t = u := by
  rw [inLeapSecond_eq_false] at ht hu
  unfold total at h
  have hseconds : t.seconds = u.seconds := by omega
  have hnanos : t.nanos = u.nanos := by omega
  cases t
  cases u
  simp only at hseconds hnanos
  subst hseconds hnanos
  rfl

/-- There is an instant for all nanoseconds between the first and the last second. -/
theorem exists_total_iff {n : Int} : (∃ t : Instant, t.inLeapSecond = false ∧ t.total = n) ↔ Spans n := by
  constructor
  · rintro ⟨t, ht, rfl⟩
    rw [inLeapSecond_eq_false] at ht
    have hrange := t.inRange
    unfold Spans total
    omega
  · rintro ⟨hlow, hhigh⟩
    refine ⟨⟨n / 1000000000, (n % 1000000000).toNat, by omega, by unfold billion; omega⟩, ?_, ?_⟩
    · rw [inLeapSecond_eq_false]
      dsimp only
      omega
    · unfold total
      dsimp only
      omega

theorem exists_isMoved_iff : (∃ u, t.IsMoved millis u) ↔ Spans (t.total + millis * 1000000) := by
  rw [← exists_total_iff]
  exact exists_congr fun u => isMoved_iff t millis u

/-! ### Moving -/

theorem shift?_eq_some_iff (ht : t.inLeapSecond = false) : t.shift? millis = some u ↔ t.IsMoved millis u := by
  have hsplit : 1000 * millis.tdiv 1000 + millis.tmod 1000 = millis := Int.mul_tdiv_add_tmod millis 1000
  rw [isMoved_iff, shift?, if_neg (by simp [ht]), shiftOrdinary, ofParts?_eq_some_iff, inLeapSecond_eq_false]
  rw [inLeapSecond_eq_false] at ht
  unfold total billion
  -- Whole seconds and the rest have the same sign, and the rest makes at most one second more or less.
  generalize millis.tdiv 1000 = whole at *
  generalize millis.tmod 1000 = rest at *
  omega

theorem shift?_eq_none_iff (ht : t.inLeapSecond = false) :
    t.shift? millis = none ↔ ¬Spans (t.total + millis * 1000000) := by
  rw [← exists_isMoved_iff, Option.eq_none_iff_forall_ne_some, not_exists]
  exact forall_congr' fun u => not_congr (shift?_eq_some_iff ht)

/-- A move back undoes a move. -/
theorem IsMoved.symm (ht : t.inLeapSecond = false) (h : t.IsMoved millis u) : u.IsMoved (-millis) t :=
  ⟨ht, by rw [h.total_eq]; omega⟩

/-! ### Differences -/

theorem IsMoved.millisSince (ht : t.inLeapSecond = false) (h : t.IsMoved millis u) : u.millisSince t = millis := by
  obtain ⟨hu, htotal⟩ := h
  have hdistance : (u.seconds - t.seconds) * billion + ((u.nanos : Int) - t.nanos) = millis * 1000000 := by
    unfold total at htotal
    unfold billion
    omega
  have hsince : u.millisSince t = ((u.seconds - t.seconds) * billion + ((u.nanos : Int) - t.nanos)).tdiv 1000000 := by
    rw [Instant.millisSince]
    -- The order of the seconds only matters to dates in leap seconds.
    cases Ord.compare (secondOfDay u.seconds) (secondOfDay t.seconds) <;> simp [ht, hu]
  rw [hsince, hdistance]
  exact Int.mul_tdiv_cancel _ (by decide)

end DocQuery.Instant
