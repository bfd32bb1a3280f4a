import Mathlib.Algebra.Order.Group.Int
import Mathlib.Algebra.Ring.Nat
import DocQuery.Calendar

/-! The calendar counts days in both directions. A year is as long as its months, every day lies in one year, and the
    date of a day has the number of the day. -/

namespace DocQuery.Calendar

variable {year day : Int} {month days : Nat} {lengths : List Nat}

/-! ### Years -/

/-- The days of a year. -/
def yearLength (year : Int) : Nat := if isLeapYear year then 366 else 365

theorem sum_monthLengths (year : Int) : (monthLengths (isLeapYear year)).sum = yearLength year := by
  unfold yearLength
  cases isLeapYear year <;> rfl

theorem firstDay_succ (year : Int) : firstDay (year + 1) = firstDay year + yearLength year := by
  unfold firstDay yearLength isLeapYear
  simp only [Bool.and_eq_true, Bool.or_eq_true, decide_eq_true_eq]
  split <;> omega

/-- The years around the mean year. -/
theorem firstDay_bounds (year : Int) :
    146097 * (year - 1) - 700 ≤ 400 * firstDay year ∧ 400 * firstDay year ≤ 146097 * (year - 1) + 399 := by
  unfold firstDay
  dsimp only
  omega

/-- A day lies between the first day of its year and that of the next. -/
theorem yearOf_spec (day : Int) : firstDay (yearOf day) ≤ day ∧ day < firstDay (yearOf day + 1) := by
  unfold yearOf
  have hestimate : 146097 * (400 * day / 146097) ≤ 400 * day := Int.mul_ediv_self_le (by decide)
  have hestimate' : 400 * day < 146097 * (400 * day / 146097 + 1) := by omega
  generalize 400 * day / 146097 = mean at *
  have hbefore := firstDay_bounds mean
  have hafter := firstDay_bounds (mean + 1 + 1 + 1)
  simp only [Int.add_sub_cancel]
  split_ifs <;> omega

theorem daysIntoYear_eq (day : Int) : (daysIntoYear day : Int) = day - firstDay (yearOf day) := by
  have := (yearOf_spec day).1
  unfold daysIntoYear
  omega

theorem daysIntoYear_lt (day : Int) : daysIntoYear day < yearLength (yearOf day) := by
  have hyear := (yearOf_spec day).2
  have hdays := daysIntoYear_eq day
  rw [firstDay_succ] at hyear
  omega

/-! ### Months -/

/-- A day of a year lies in the month behind the months that are over. -/
theorem monthAndDay_spec (month : Nat) (h : days < lengths.sum) : ∃ i length, lengths[i]? = some length ∧
    (monthAndDay month days lengths).1 = month + i ∧ 1 ≤ (monthAndDay month days lengths).2 ∧
      (monthAndDay month days lengths).2 ≤ length ∧
        (lengths.take i).sum + ((monthAndDay month days lengths).2 - 1) = days := by
  induction lengths generalizing month days with
  | nil => simp at h
  | cons length rest ih =>
    rw [monthAndDay]
    split
    · next hlt => exact ⟨0, length, rfl, rfl, by simp, hlt, by simp⟩
    · -- A month that is over takes its days with it, and the others are counted from it.
      next hge =>
      rw [List.sum_cons] at h
      obtain ⟨i, last, hlast, hmonth, hone, hle, hsum⟩ := @ih (days - length) (month + 1) (by omega)
      refine ⟨i + 1, last, hlast, by omega, hone, hle, ?_⟩
      rw [List.take_succ_cons, List.sum_cons]
      omega

/-- The date of a day names a month of the year, and a day of that month. -/
theorem dateOf_spec (day : Int) : ∃ i length, (monthLengths (isLeapYear (dateOf day).year))[i]? = some length ∧
    (dateOf day).month = 1 + i ∧ 1 ≤ (dateOf day).day ∧ (dateOf day).day ≤ length ∧
      ((monthLengths (isLeapYear (dateOf day).year)).take i).sum + ((dateOf day).day - 1) = daysIntoYear day := by
  have hlt := daysIntoYear_lt day
  rw [← sum_monthLengths] at hlt
  exact monthAndDay_spec 1 hlt

theorem dateOf_bounds (day : Int) : (dateOf day).month ≤ 12 ∧ (dateOf day).day ≤ 31 := by
  obtain ⟨i, length, hlength, hmonth, -, hle, -⟩ := dateOf_spec day
  have hlast : ∀ leap, ∀ length ∈ monthLengths leap, length ≤ 31 := by decide
  obtain ⟨hi, -⟩ := List.getElem?_eq_some_iff.mp hlength
  have hcount : (monthLengths (isLeapYear (dateOf day).year)).length = 12 := rfl
  have hlong := hlast _ length (List.mem_of_getElem? hlength)
  omega

/-- The date of a day is a date, and the number of that date is the day. -/
theorem dayNumber?_dateOf (day : Int) : dayNumber? (dateOf day) = some day := by
  obtain ⟨i, length, hlength, hmonth, hone, hle, hsum⟩ := dateOf_spec day
  have hdays := daysIntoYear_eq day
  have hyear : (dateOf day).year = yearOf day := rfl
  have hindex : (dateOf day).month - 1 = i := by omega
  unfold dayNumber?
  dsimp only
  rw [hindex, hlength]
  dsimp only
  rw [if_pos ⟨by omega, hone, hle⟩, ← List.sum_eq_foldl]
  rw [hyear] at hsum ⊢
  congr 1
  omega

end DocQuery.Calendar
