import DocQuery.Instant.Printer
import DocQuery.Instant.Reader
import DocQuery.Proofs.Calendar
import DocQuery.Proofs.Double.Text
import DocQuery.Proofs.Value.Millis

/-! Texts of dates. The strict reader reads back what is printed, if the year is written with four digits and no sign.
    Years before 0 or behind 9999 are printed with a sign, which the strict form does not have. -/

namespace DocQuery.Instant

open Text

variable {t : Instant} {c : Char} {n width nanos : Nat} {text rest tail zone : List Char} {offset : Int}

/-! ### Digits -/

theorem allDigits_paddedDigits (width n : Nat) : AllDigits (paddedDigits width n) :=
  (allDigits_zeros _).append (allDigits_toDigits n)

theorem length_paddedDigits (hwidth : 0 < width) (h : n < 10 ^ width) : (paddedDigits width n).length = width := by
  have hlength := (Nat.length_toDigits_le_iff (by decide) hwidth).mpr h
  rw [paddedDigits, List.length_append, List.length_replicate]
  omega

theorem naturalOf_paddedDigits (width n : Nat) : naturalOf (paddedDigits width n) = n := by
  rw [paddedDigits, naturalOf_append, naturalOf_zeros, naturalOf_toDigits, Nat.zero_mul, Nat.zero_add]

theorem digits?_paddedDigits (hwidth : 0 < width) (h : n < 10 ^ width) (rest : List Char) :
    digits? width (paddedDigits width n ++ rest) = some (n, rest) := by
  have hlength := length_paddedDigits hwidth h
  have hall : (paddedDigits width n).all Char.isDigit := List.all_eq_true.mpr (allDigits_paddedDigits width n)
  rw [digits?, List.take_left' hlength, List.drop_left' hlength, if_pos ⟨hlength, hall⟩, naturalOf_paddedDigits]

theorem digits?_cons (h : c.isDigit = false) (count : Nat) (rest : List Char) :
    digits? (count + 1) (c :: rest) = none := by
  simp [digits?, h]

/-! ### Printing and reading -/

/-- The year of UTC. -/
def year (t : Instant) : Int := (LocalTime.ofInstant t 0).date.year

/-- Leap seconds lie at the end of a minute. -/
def Regular (t : Instant) : Prop := t.inLeapSecond → t.seconds % 60 = 59

theorem bind_of_eq_some {α β : Type} {x : Option α} {f : α → Option β} {a : α} {y : Option β} (hx : x = some a)
    (hf : f a = y) : (x >>= f) = y := hx ▸ hf

/-- Numbers that fit in their places are read as the parts of a date and time. -/
theorem ofStandard?_digits {year month day hour minute second : Nat} (hyear : year < 10 ^ 4) (hmonth : month < 10 ^ 2)
    (hday : day < 10 ^ 2) (hhour : hour < 10 ^ 2) (hminute : minute < 10 ^ 2) (hsecond : second < 10 ^ 2)
    (hfraction : optionalFraction? tail = some (nanos, zone)) (hzone : offset? zone = some (offset, [])) :
    ofStandard? (String.ofList (paddedDigits 4 year ++ '-' :: paddedDigits 2 month ++ '-' :: paddedDigits 2 day
      ++ 'T' :: paddedDigits 2 hour ++ ':' :: paddedDigits 2 minute ++ ':' :: paddedDigits 2 second ++ tail)) =
      Parts.toInstant? ⟨year, month, day, hour, minute, second, nanos⟩ offset := by
  have hdash (rest : List Char) : skip? ['-'] ('-' :: rest) = some rest := rfl
  have htime (rest : List Char) : skip? ['T', 't', ' '] ('T' :: rest) = some rest := rfl
  have hcolon (rest : List Char) : skip? [':'] (':' :: rest) = some rest := rfl
  have htwo {n : Nat} (h : n < 10 ^ 2) := digits?_paddedDigits (by decide) h
  rw [ofStandard?, String.toList_ofList]
  simp only [List.append_assoc, List.cons_append]
  exact bind_of_eq_some (digits?_paddedDigits (by decide) hyear _) <| bind_of_eq_some (hdash _) <|
    bind_of_eq_some (htwo hmonth _) <| bind_of_eq_some (hdash _) <| bind_of_eq_some (htwo hday _) <|
    bind_of_eq_some (htime _) <| bind_of_eq_some (htwo hhour _) <| bind_of_eq_some (hcolon _) <|
    bind_of_eq_some (htwo hminute _) <| bind_of_eq_some (hcolon _) <| bind_of_eq_some (htwo hsecond _) <|
    bind_of_eq_some hfraction <| bind_of_eq_some hzone <| if_pos rfl

/-- The second that is printed. -/
def shownSecond (t : Instant) : Nat :=
  if t.inLeapSecond then secondOfDay t.seconds % 60 + 1 else secondOfDay t.seconds % 60

theorem Regular.shownSecond (ht : t.Regular) : min t.shownSecond 59 = secondOfDay t.seconds % 60 ∧
    t.shownSecond ≤ 60 ∧ (t.shownSecond = 60 ↔ t.inLeapSecond) := by
  unfold Instant.shownSecond
  have hlt : secondOfDay t.seconds % 60 < 60 := Nat.mod_lt _ (by decide)
  cases hleap : t.inLeapSecond with
  | true =>
    -- A leap second stands in the last second of a minute, and is shown as one more.
    have hlast : secondOfDay t.seconds % 60 = 59 := by
      have := ht hleap
      unfold secondOfDay
      omega
    simp [hlast]
  | false =>
    simp only [Bool.false_eq_true, if_false, iff_false]
    generalize secondOfDay t.seconds % 60 = second at hlt ⊢
    omega

/-- What a clock of UTC shows names the instant, to the fraction of its second. -/
theorem toInstant?_clock (ht : t.Regular) (nanos : Nat) :
    let date := Calendar.dateOf (dayNumber t.seconds)
    let second := secondOfDay t.seconds
    Parts.toInstant? ⟨date.year, date.month, date.day, second / 3600, second / 60 % 60, t.shownSecond, nanos⟩ 0 =
      ofParts? t.seconds (if t.inLeapSecond then nanos + billion else nanos) := by
  intro date second
  obtain ⟨hmin, hle, hsixty⟩ := ht.shownSecond
  have hday : Calendar.dayNumber? date = some (dayNumber t.seconds) := Calendar.dayNumber?_dateOf _
  have hnumber : dayNumber t.seconds - epochDay = t.seconds / 86400 := by
    unfold dayNumber
    omega
  have hsecond : (second : Int) = t.seconds % 86400 := by
    unfold second secondOfDay
    omega
  have hclock : second / 3600 < 24 ∧ second / 60 % 60 < 60 ∧ t.shownSecond ≤ 60 := by omega
  have htotal : t.seconds / 86400 * 86400 + (second / 3600 : Nat) * 3600 + (second / 60 % 60 : Nat) * 60 +
      (second % 60 : Nat) - 0 = t.seconds := by omega
  simp only [Parts.toInstant?, hday, Option.bind_eq_bind, Option.bind_some, hnumber]
  rw [if_pos hclock, hmin, htotal]
  simp only [hsixty]

/-- Any fraction and any writing of the offset zero may follow what is printed of the second. -/
theorem ofStandard?_dateTimeText (ht : t.Regular) (hyear : 0 ≤ t.year ∧ t.year ≤ 9999)
    (hfraction : optionalFraction? tail = some (nanos, zone)) (hzone : offset? zone = some (0, [])) :
    ofStandard? (String.ofList (dateTimeText (.ofInstant t 0) ++ tail)) =
      ofParts? t.seconds (if t.inLeapSecond then nanos + billion else nanos) := by
  have hlocal : LocalTime.ofInstant t 0 = ⟨dayNumber t.seconds, Calendar.dateOf (dayNumber t.seconds),
      secondOfDay t.seconds / 3600, secondOfDay t.seconds / 60 % 60, secondOfDay t.seconds % 60, t.nanos⟩ := by
    rw [LocalTime.ofInstant, Int.add_zero]
  obtain ⟨hmonth, hday⟩ := Calendar.dateOf_bounds (dayNumber t.seconds)
  obtain ⟨-, hsecond, -⟩ := ht.shownSecond
  rw [year, hlocal] at hyear
  dsimp only at hyear
  rw [hlocal, dateTimeText, yearText, if_pos hyear]
  have hshown : (if billion ≤ t.nanos then secondOfDay t.seconds % 60 + 1 else secondOfDay t.seconds % 60) =
      t.shownSecond := by
    simp [shownSecond, inLeapSecond]
  dsimp only
  rw [hshown, ofStandard?_digits (by omega) (by omega) (by omega) ?_ ?_ (by omega) hfraction hzone,
    Int.toNat_of_nonneg hyear.1]
  · exact toInstant?_clock ht nanos
  · unfold secondOfDay
    omega
  · omega

/-! ### Fractions -/

theorem fraction?_append (htext : AllDigits text) (hne : text ≠ []) (hlength : text.length ≤ 9)
    (hrest : Stops Char.isDigit rest) :
    fraction? (text ++ rest) = some (naturalOf text * 10 ^ (9 - text.length), rest) := by
  have hdigits : ∀ c ∈ text, c.isDigit := htext
  rw [fraction?, takeWhile_append hdigits hrest, dropWhile_append hdigits hrest, List.take_of_length_le hlength,
    List.isEmpty_eq_false_iff.mpr hne]
  simp only [Bool.false_eq_true, if_false, naturalOf_append, naturalOf_zeros, List.length_replicate,
    Nat.add_zero]

theorem fraction?_lt (h : fraction? text = some (nanos, rest)) : nanos < billion := by
  unfold fraction? at h
  dsimp only at h
  split at h
  · cases h
  · obtain ⟨rfl, -⟩ := Prod.mk.inj (Option.some.inj h)
    -- Digits behind the ninth are dropped, and zeros are put behind fewer than nine.
    have hkept : AllDigits ((text.takeWhile Char.isDigit).take 9) := fun c hc =>
      List.all_eq_true.mp List.all_takeWhile c (List.mem_of_mem_take hc)
    have hlt := naturalOf_lt (hkept.append (allDigits_zeros (9 - ((text.takeWhile Char.isDigit).take 9).length)))
    have hlength : ((text.takeWhile Char.isDigit).take 9).length ≤ 9 := List.length_take_le ..
    rwa [List.length_append, List.length_replicate, Nat.add_sub_cancel' hlength] at hlt

theorem optionalFraction?_lt (h : optionalFraction? text = some (nanos, rest)) : nanos < billion := by
  unfold optionalFraction? at h
  split at h
  · exact fraction?_lt h
  · obtain ⟨rfl, -⟩ := Prod.mk.inj (Option.some.inj h)
    decide

/-! ### Dates with milliseconds -/

theorem ofParts?_cut (t : Instant) :
    ofParts? t.seconds (if t.inLeapSecond then t.nanos % billion / 1000000 * 1000000 + billion
      else t.nanos % billion / 1000000 * 1000000) = some t.cut := by
  have hlt := t.nanos_lt
  -- The billion of a leap second is a whole number of milliseconds, so that it is cut by itself.
  have hnanos : (if t.inLeapSecond then t.nanos % billion / 1000000 * 1000000 + billion
      else t.nanos % billion / 1000000 * 1000000) = t.nanos / 1000000 * 1000000 := by
    unfold inLeapSecond billion at *
    simp only [decide_eq_true_eq]
    split <;> omega
  rw [hnanos, ofParts?, dif_pos ⟨t.inRange, t.cut.nanos_lt⟩]
  rfl

theorem yearText_signed {year : Int} (h : ¬(0 ≤ year ∧ year ≤ 9999)) :
    ∃ c rest, c.isDigit = false ∧ yearText year = c :: rest := by
  rw [yearText, if_neg h]
  split
  · next hyear => exact ⟨'-', _, rfl, if_pos hyear⟩
  · exact ⟨'+', _, rfl, rfl⟩

theorem ofStandard?_signed (hsign : c.isDigit = false) (rest : List Char) :
    ofStandard? (String.ofList (c :: rest)) = none := by
  rw [ofStandard?, String.toList_ofList, digits?_cons hsign]
  rfl

/-- What is printed with milliseconds reads back to the millisecond, if the year has four digits and no sign. -/
theorem ofStandard?_toText (ht : t.Regular) :
    ofStandard? t.toText = if 0 ≤ t.year ∧ t.year ≤ 9999 then some t.cut else none := by
  have hmillis : t.nanos % billion / 1000000 < 10 ^ 3 := by
    unfold billion
    omega
  rw [toText, List.append_assoc]
  split
  · next hyear =>
    have hfraction : optionalFraction? ('.' :: paddedDigits 3 (t.nanos % billion / 1000000) ++ ['Z']) =
        some (t.nanos % billion / 1000000 * 1000000, ['Z']) := by
      have hlength := length_paddedDigits (by decide) hmillis
      have hstops : Stops Char.isDigit ['Z'] := stops_cons (by decide)
      have hne : paddedDigits 3 (t.nanos % billion / 1000000) ≠ [] := List.ne_nil_of_length_pos (by omega)
      rw [List.cons_append, optionalFraction?, fraction?_append (allDigits_paddedDigits 3 _) hne (by omega) hstops,
        hlength, naturalOf_paddedDigits]
      rfl
    rw [ofStandard?_dateTimeText ht hyear hfraction rfl, ofParts?_cut]
  · -- Other years are written with a sign, where the reader wants four digits.
    next hyear =>
    obtain ⟨c, rest, hc, htext⟩ := yearText_signed hyear
    rw [year] at htext
    simp only [dateTimeText, htext, List.append_assoc, List.cons_append]
    exact ofStandard?_signed hc _

/-! ### Leap seconds -/

theorem regular_ofMillis? {n : Int} (h : ofMillis? n = some t) : t.Regular := by
  obtain ⟨-, hnanos⟩ := ofParts?_eq_some h
  intro hleap
  unfold inLeapSecond billion at hleap
  simp only [decide_eq_true_eq, hnanos] at hleap
  omega

/-- Offsets are whole minutes. -/
theorem offset?_dvd (h : offset? text = some (offset, rest)) : 60 ∣ offset := by
  unfold offset? at h
  split at h
  · cases h
  · split at h
    · obtain ⟨rfl, -⟩ := Prod.mk.inj (Option.some.inj h)
      exact Int.dvd_zero 60
    · split at h
      · simp only [Option.bind_eq_bind, Option.bind_eq_some_iff] at h
        obtain ⟨⟨hours, _⟩, -, _, -, ⟨minutes, _⟩, -, h⟩ := h
        split at h
        · obtain ⟨rfl, -⟩ := Prod.mk.inj (Option.some.inj h)
          split <;> omega
        · cases h
      · cases h

theorem regular_toInstant? {p : Parts} (hnanos : p.nanos < billion) (hoffset : 60 ∣ offset)
    (h : p.toInstant? offset = some t) : t.Regular := by
  obtain ⟨day, -, h⟩ := Option.bind_eq_some_iff.mp h
  split at h
  · next hclock =>
    obtain ⟨hseconds, hparts⟩ := ofParts?_eq_some h
    intro hleap
    -- Less than a billion nanoseconds are read, so that only the second 60 makes a leap second.
    have hsixty : p.second = 60 := by
      by_contra hne
      rw [if_neg hne] at hparts
      unfold inLeapSecond at hleap
      simp only [decide_eq_true_eq] at hleap
      omega
    rw [hsixty] at hseconds
    omega
  · cases h

/-- Dates that are read have their leap seconds at the end of a minute. -/
theorem regular_ofStandard? {s : String} (h : ofStandard? s = some t) : t.Regular := by
  -- Six numbers with separators between them say nothing about leap seconds.
  obtain ⟨⟨_, _⟩, -, h⟩ := Option.bind_eq_some_iff.mp h
  obtain ⟨_, -, h⟩ := Option.bind_eq_some_iff.mp h
  obtain ⟨⟨_, _⟩, -, h⟩ := Option.bind_eq_some_iff.mp h
  obtain ⟨_, -, h⟩ := Option.bind_eq_some_iff.mp h
  obtain ⟨⟨_, _⟩, -, h⟩ := Option.bind_eq_some_iff.mp h
  obtain ⟨_, -, h⟩ := Option.bind_eq_some_iff.mp h
  obtain ⟨⟨_, _⟩, -, h⟩ := Option.bind_eq_some_iff.mp h
  obtain ⟨_, -, h⟩ := Option.bind_eq_some_iff.mp h
  obtain ⟨⟨_, _⟩, -, h⟩ := Option.bind_eq_some_iff.mp h
  obtain ⟨_, -, h⟩ := Option.bind_eq_some_iff.mp h
  obtain ⟨⟨_, _⟩, -, h⟩ := Option.bind_eq_some_iff.mp h
  obtain ⟨⟨nanos, _⟩, hnanos, h⟩ := Option.bind_eq_some_iff.mp h
  obtain ⟨⟨offset, _⟩, hoffset, h⟩ := Option.bind_eq_some_iff.mp h
  dsimp only at h
  split at h
  · exact regular_toInstant? (optionalFraction?_lt hnanos) (offset?_dvd hoffset) h
  · cases h

end DocQuery.Instant
