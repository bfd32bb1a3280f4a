import DocQuery.Expr.Dates
import DocQuery.Proofs.Instant.Text

/-! The grammar of timezones: the names of UTC, and a sign with two digits for hours, or with two more for minutes,
    between which a colon may stand. Reading deletes colons wherever they stand, so it accepts all texts of the grammar
    with their offset and, beyond them, the same digits with colons in other places. -/

namespace DocQuery.Timezone

open Text
open Instant (naturalOf_paddedDigits length_paddedDigits allDigits_paddedDigits)

/-! ### The grammar -/

/-- The digits of hours, or of hours and minutes. -/
inductive Digits : List Char → Nat → Nat → Prop
  | hours {hours : Nat} (h : hours < 100) : Digits (paddedDigits 2 hours) hours 0
  | minutes {hours minutes : Nat} (h : hours < 100) (h' : minutes < 100) :
    Digits (paddedDigits 2 hours ++ paddedDigits 2 minutes) hours minutes

/-- Hours, or hours and minutes with or without a colon between them. -/
inductive Clock : List Char → Nat → Nat → Prop
  | plain {text : List Char} {hours minutes : Nat} (h : Digits text hours minutes) : Clock text hours minutes
  | colon {hours minutes : Nat} (h : hours < 100) (h' : minutes < 100) :
    Clock (paddedDigits 2 hours ++ ':' :: paddedDigits 2 minutes) hours minutes

/-- Hours, or hours and minutes, with colons anywhere. -/
def Scattered (text : List Char) : Nat → Nat → Prop := Digits (text.filter (· ≠ ':'))

/-- The name stands for an offset of so many seconds, which is less than a day: it is a name of UTC, or a sign
    before hours and minutes that are written in this form. -/
inductive StandsFor (form : List Char → Nat → Nat → Prop) : String → Int → Prop
  | utc {name : String} (h : name = "UTC" ∨ name = "GMT" ∨ name = "Z" ∨ name = "Etc/UTC") : StandsFor form name 0
  | east {text : List Char} {hours minutes : Nat} (h : form text hours minutes)
    (hday : hours * 3600 + minutes * 60 < 86400) :
    StandsFor form (String.ofList ('+' :: text)) (hours * 3600 + minutes * 60)
  | west {text : List Char} {hours minutes : Nat} (h : form text hours minutes)
    (hday : hours * 3600 + minutes * 60 < 86400) :
    StandsFor form (String.ofList ('-' :: text)) (-(hours * 3600 + minutes * 60))

variable {a b c d : Char} {text : List Char} {hours minutes : Nat} {name : String} {seconds : Int}

/-! ### Digits -/

theorem naturalOf_pair (a b : Char) : naturalOf [a, b] = 10 * (a.toNat - 48) + (b.toNat - 48) := by
  have hsplit : naturalOf [a, b] = naturalOf [a] * 10 ^ 1 + naturalOf [b] := naturalOf_append [a] [b]
  rw [hsplit, naturalOf_singleton, naturalOf_singleton, Nat.pow_one, Nat.mul_comm]

theorem naturalOf_pair_inj (ha : a.isDigit) (hb : b.isDigit) (hc : c.isDigit) (hd : d.isDigit)
    (h : naturalOf [a, b] = naturalOf [c, d]) : a = c ∧ b = d := by
  have hbounds {x : Char} (hx : x.isDigit) : 48 ≤ x.toNat ∧ x.toNat ≤ 57 := Char.isDigit_iff_toNat.mp hx
  have ha := hbounds ha
  have hb := hbounds hb
  have hc := hbounds hc
  have hd := hbounds hd
  rw [naturalOf_pair, naturalOf_pair] at h
  exact ⟨Char.toNat_inj.mp (by omega), Char.toNat_inj.mp (by omega)⟩

theorem length_twoDigits {n : Nat} (h : n < 100) : (paddedDigits 2 n).length = 2 := length_paddedDigits (by decide) h

/-- A number below a hundred is printed with two digits, which read as that number. -/
theorem exists_digits_of_lt {n : Nat} (h : n < 100) :
    ∃ a b, paddedDigits 2 n = [a, b] ∧ a.isDigit ∧ b.isDigit ∧ naturalOf [a, b] = n := by
  obtain ⟨a, b, hpair⟩ := List.length_eq_two.mp (length_twoDigits h)
  have hall := allDigits_paddedDigits 2 n
  rw [hpair] at hall
  have ha : a.isDigit := hall a List.mem_cons_self
  have hb : b.isDigit := hall b (List.mem_cons_of_mem a List.mem_cons_self)
  refine ⟨a, b, hpair, ha, hb, ?_⟩
  rw [← hpair, naturalOf_paddedDigits]

/-- Two digits are what the number that they read as is printed with. -/
theorem exists_lt_of_digits (ha : a.isDigit) (hb : b.isDigit) : ∃ n < 100, paddedDigits 2 n = [a, b] := by
  have hall : AllDigits [a, b] := List.forall_mem_cons.mpr ⟨ha, List.forall_mem_singleton.mpr hb⟩
  have hlt : naturalOf [a, b] < 100 := naturalOf_lt hall
  obtain ⟨c, d, hpair, hc, hd, hvalue⟩ := exists_digits_of_lt hlt
  obtain ⟨rfl, rfl⟩ := naturalOf_pair_inj hc hd ha hb hvalue
  exact ⟨naturalOf [c, d], hlt, hpair⟩

/-! ### Reading -/

theorem magnitude?_of_digits (h : Digits text hours minutes) :
    magnitude? text = (some (hours * 3600 + minutes * 60 : Int)).filter (· < 86400) := by
  cases h with
  | hours h =>
    obtain ⟨a, b, hpair, ha, hb, hvalue⟩ := exists_digits_of_lt h
    have hall : [a, b].all Char.isDigit := by simp [ha, hb]
    rw [hpair, magnitude?, if_pos hall, hvalue, Int.ofNat_zero, Int.zero_mul, Int.add_zero]
  | minutes h h' =>
    obtain ⟨a, b, hpair, ha, hb, hvalue⟩ := exists_digits_of_lt h
    obtain ⟨c, d, hpair', hc, hd, hvalue'⟩ := exists_digits_of_lt h'
    have hall : [a, b, c, d].all Char.isDigit := by simp [ha, hb, hc, hd]
    rw [hpair, hpair', List.cons_append, List.cons_append, List.nil_append, magnitude?, if_pos hall, hvalue, hvalue']

theorem exists_digits_of_magnitude? (h : magnitude? text = some seconds) :
    ∃ hours minutes, Digits text hours minutes := by
  unfold magnitude? at h
  dsimp only at h
  split at h
  · next hall =>
    split at h
    · next a b =>
      obtain ⟨ha, hb⟩ : a.isDigit ∧ b.isDigit := by simpa using hall
      obtain ⟨hours, hhours, hpair⟩ := exists_lt_of_digits ha hb
      exact ⟨hours, 0, hpair ▸ .hours hhours⟩
    · next a b c d =>
      obtain ⟨ha, hb, hc, hd⟩ : a.isDigit ∧ b.isDigit ∧ c.isDigit ∧ d.isDigit := by simpa using hall
      obtain ⟨hours, hhours, hpair⟩ := exists_lt_of_digits ha hb
      obtain ⟨minutes, hminutes, hpair'⟩ := exists_lt_of_digits hc hd
      have hdigits := Digits.minutes hhours hminutes
      rw [hpair, hpair'] at hdigits
      exact ⟨hours, minutes, hdigits⟩
    · exact nomatch h
  · exact nomatch h

theorem magnitude?_eq_some_iff : magnitude? text = some seconds ↔ ∃ hours minutes, Digits text hours minutes ∧
    hours * 3600 + minutes * 60 < 86400 ∧ seconds = hours * 3600 + minutes * 60 := by
  constructor
  · intro h
    obtain ⟨hours, minutes, hdigits⟩ := exists_digits_of_magnitude? h
    rw [magnitude?_of_digits hdigits, Option.filter_eq_some_iff, decide_eq_true_eq] at h
    obtain ⟨hseconds, hday⟩ := h
    have hseconds := Option.some.inj hseconds
    exact ⟨hours, minutes, hdigits, by omega, hseconds.symm⟩
  · rintro ⟨hours, minutes, hdigits, hday, rfl⟩
    rw [magnitude?_of_digits hdigits, Option.filter_eq_some_iff, decide_eq_true_eq]
    exact ⟨rfl, by omega⟩

theorem StandsFor.mono {form form' : List Char → Nat → Nat → Prop}
    (hform : ∀ text hours minutes, form text hours minutes → form' text hours minutes)
    (h : StandsFor form name seconds) : StandsFor form' name seconds := by
  cases h with
  | utc h => exact .utc h
  | east h hday => exact .east (hform _ _ _ h) hday
  | west h hday => exact .west (hform _ _ _ h) hday

theorem head?_ne_sign (h : name = "UTC" ∨ name = "GMT" ∨ name = "Z" ∨ name = "Etc/UTC") :
    name.toList.head? ≠ some '+' ∧ name.toList.head? ≠ some '-' := by
  rcases h with rfl | rfl | rfl | rfl <;> decide

theorem offset?_eq_some_iff : offset? name = some seconds ↔ StandsFor Scattered name seconds := by
  have hlist : String.ofList name.toList = name := String.ofList_toList
  constructor
  · intro h
    rw [offset?] at h
    split at h
    · next hname =>
      obtain rfl := Option.some.inj h
      exact .utc hname
    · split at h
      · next text hname =>
        obtain ⟨hours, minutes, hdigits, hday, rfl⟩ := magnitude?_eq_some_iff.mp h
        rw [← hlist, hname]
        exact .east hdigits hday
      · next text hname =>
        obtain ⟨offset, hoffset, rfl⟩ := Option.map_eq_some_iff.mp h
        obtain ⟨hours, minutes, hdigits, hday, rfl⟩ := magnitude?_eq_some_iff.mp hoffset
        rw [← hlist, hname]
        exact .west hdigits hday
      · exact nomatch h
  · intro h
    rw [offset?]
    cases h with
    | utc h => exact if_pos h
    -- No name of UTC starts with a sign.
    | @east text hours minutes h hday =>
      rw [if_neg fun hutc => (head?_ne_sign hutc).1 (by simp), String.toList_ofList]
      exact magnitude?_eq_some_iff.mpr ⟨hours, minutes, h, hday, rfl⟩
    | @west text hours minutes h hday =>
      rw [if_neg fun hutc => (head?_ne_sign hutc).2 (by simp), String.toList_ofList]
      exact Option.map_eq_some_iff.mpr ⟨_, magnitude?_eq_some_iff.mpr ⟨hours, minutes, h, hday, rfl⟩, rfl⟩

/-! ### Colons -/

/-- There is no colon, or a single one between two characters and two more. -/
def ColonsInPlace (text : List Char) : Prop :=
  ':' ∉ text ∨ ∃ before after, text = before ++ ':' :: after ∧ before.length = 2 ∧ after.length = 2 ∧
    ':' ∉ before ++ after

theorem colon_not_mem_paddedDigits (n : Nat) : ':' ∉ paddedDigits 2 n := fun hmem =>
  absurd (allDigits_paddedDigits 2 n ':' hmem) (by decide)

theorem Digits.colon_not_mem (h : Digits text hours minutes) : ':' ∉ text := by
  cases h with
  | hours h => exact colon_not_mem_paddedDigits _
  | minutes h h' =>
    rw [List.mem_append]
    exact not_or.mpr ⟨colon_not_mem_paddedDigits _, colon_not_mem_paddedDigits _⟩

theorem filter_of_not_mem (h : ':' ∉ text) : text.filter (· ≠ ':') = text :=
  List.filter_eq_self.mpr fun _ hc => decide_eq_true fun heq => h (heq ▸ hc)

theorem filter_append_cons {before after : List Char} (h : ':' ∉ before ++ after) :
    (before ++ ':' :: after).filter (· ≠ ':') = before ++ after := by
  rw [List.filter_append, List.filter_cons_of_neg (by decide), ← List.filter_append, filter_of_not_mem h]

theorem Clock.scattered (h : Clock text hours minutes) : Scattered text hours minutes := by
  unfold Scattered
  cases h with
  | plain h =>
    rw [filter_of_not_mem h.colon_not_mem]
    exact h
  | colon h h' =>
    have hdigits := Digits.minutes h h'
    rw [filter_append_cons hdigits.colon_not_mem]
    exact hdigits

theorem Clock.colonsInPlace (h : Clock text hours minutes) : ColonsInPlace text := by
  cases h with
  | plain h => exact .inl h.colon_not_mem
  | colon h h' =>
    exact .inr ⟨_, _, rfl, length_twoDigits h, length_twoDigits h', (Digits.minutes h h').colon_not_mem⟩

theorem Scattered.clock (h : Scattered text hours minutes) (hcolons : ColonsInPlace text) :
    Clock text hours minutes := by
  unfold Scattered at h
  rcases hcolons with hnone | ⟨before, after, rfl, hbefore, hafter, hone⟩
  · rw [filter_of_not_mem hnone] at h
    exact .plain h
  · rw [filter_append_cons hone] at h
    -- Four characters are left, so they are digits of hours and of minutes, with the colon between them.
    generalize hdigits : before ++ after = digits at h
    cases h with
    | hours h =>
      have hlength := congrArg List.length hdigits
      rw [List.length_append, length_twoDigits h] at hlength
      omega
    | minutes h h' =>
      obtain ⟨rfl, rfl⟩ := List.append_inj hdigits (hbefore.trans (length_twoDigits h).symm)
      exact .colon h h'

/-! ### Accepted texts -/

/-- The text behind the sign. -/
def unsigned (name : String) : List Char := name.toList.tail

theorem StandsFor.colonsInPlace (h : StandsFor Clock name seconds) : ColonsInPlace (unsigned name) := by
  cases h with
  | utc h => rcases h with rfl | rfl | rfl | rfl <;> exact .inl (by decide)
  | east h _ | west h _ =>
    rw [unsigned, String.toList_ofList]
    exact h.colonsInPlace

theorem StandsFor.clock (h : StandsFor Scattered name seconds) (hcolons : ColonsInPlace (unsigned name)) :
    StandsFor Clock name seconds := by
  cases h with
  | utc h => exact .utc h
  | east h hday =>
    rw [unsigned, String.toList_ofList] at hcolons
    exact .east (h.clock hcolons) hday
  | west h hday =>
    rw [unsigned, String.toList_ofList] at hcolons
    exact .west (h.clock hcolons) hday

theorem standsFor_clock_iff :
    StandsFor Clock name seconds ↔ StandsFor Scattered name seconds ∧ ColonsInPlace (unsigned name) := by
  constructor
  · intro h
    exact ⟨h.mono fun _ _ _ => Clock.scattered, h.colonsInPlace⟩
  · rintro ⟨h, hcolons⟩
    exact h.clock hcolons

/-! ### Timezone arguments -/

variable {operator : String}

theorem offset_eq_ok_iff :
    Dates.offset operator (some (.string name)) = .ok seconds ↔ StandsFor Scattered name seconds := by
  rw [← offset?_eq_some_iff, Dates.offset]
  cases offset? name with
  | none => exact iff_of_false nofun nofun
  | some found => simp

theorem offset_eq_error (h : ∀ seconds, ¬StandsFor Scattered name seconds) :
    Dates.offset operator (some (.string name)) = .error (.unknownTimezone operator name) := by
  have hnone : offset? name = none := Option.eq_none_iff_forall_ne_some.mpr fun seconds hseconds =>
    h seconds (offset?_eq_some_iff.mp hseconds)
  rw [Dates.offset, hnone]

/-- The texts of the grammar are read as the offsets that they stand for, and all others are ill-formed. -/
def ReadAsDocumented (operator name : String) : Prop :=
  (∀ seconds, Dates.offset operator (some (.string name)) = .ok seconds ↔ StandsFor Clock name seconds) ∧
    ((∀ seconds, ¬StandsFor Clock name seconds) →
      ∃ fault, Dates.offset operator (some (.string name)) = .error fault ∧ fault.kind = .queryShape)

/-- A text is read without its colons, wherever they stand behind the sign. So it is read by the grammar exactly unless
    it comes to an offset in this way with colons out of place; texts that do not come to an offset are reported. -/
theorem offset_documented_iff (operator name : String) :
    (ReadAsDocumented operator name ↔ ∀ seconds, StandsFor Scattered name seconds → ColonsInPlace (unsigned name)) ∧
    (∀ seconds, Dates.offset operator (some (.string name)) = .ok seconds ↔ StandsFor Scattered name seconds) ∧
    (∀ seconds, StandsFor Clock name seconds ↔ StandsFor Scattered name seconds ∧ ColonsInPlace (unsigned name)) ∧
    ((∀ seconds, ¬StandsFor Scattered name seconds) →
      Dates.offset operator (some (.string name)) = .error (.unknownTimezone operator name)) ∧
    (Fault.unknownTimezone operator name).kind = .queryShape := by
  refine ⟨⟨?_, fun hplaced => ⟨fun seconds => ?_, fun hnone => ?_⟩⟩, fun _ => offset_eq_ok_iff,
    fun _ => standsFor_clock_iff, offset_eq_error, rfl⟩
  · rintro ⟨hread, -⟩ seconds hstands
    exact ((hread seconds).mp (offset_eq_ok_iff.mpr hstands)).colonsInPlace
  · rw [offset_eq_ok_iff, standsFor_clock_iff]
    exact (and_iff_left_of_imp (hplaced seconds)).symm
  · -- Where the grammar gives nothing the reader must report: what it reads has its colons in place.
    refine ⟨_, offset_eq_error fun seconds hstands => ?_, rfl⟩
    exact hnone seconds (hstands.clock (hplaced seconds hstands))

/-- A colon between the two digits of the hours is passed over. -/
theorem not_offset_documented : ¬∀ operator name, ReadAsDocumented operator name := by
  intro h
  have hoffset : Dates.offset "$hour" (some (.string "+0:530")) = .ok 19800 := by rfl
  have hcolons : ColonsInPlace (unsigned "+0:530") := (((h "$hour" "+0:530").1 19800).mp hoffset).colonsInPlace
  rcases hcolons with hnone | ⟨before, after, hsplit, hbefore, -, hone⟩
  · exact hnone (by decide)
  · have hfirst : (unsigned "+0:530").take 2 = before := by rw [hsplit, List.take_left' hbefore]
    exact hone (List.mem_append_left after (hfirst ▸ by decide))

example : offset? "+05:30" = some 19800 ∧ offset? "-0800" = some (-28800) ∧ offset? "+02" = some 7200 ∧
    offset? "+24:00" = none := by
  decide

end DocQuery.Timezone
