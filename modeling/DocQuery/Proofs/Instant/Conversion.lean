import DocQuery.Proofs.Expr.Applied
import DocQuery.Proofs.Instant.Text
import DocQuery.Value.Json

/-! Dates as texts. In a year of four digits, outside leap seconds, the format that a date is written in if none is
    given shows what the standard text with milliseconds shows. Such a text has nothing around it that reading would
    drop, and the strict form reads it, so that no loose form is tried. -/

namespace DocQuery

open DocQuery.Expr Value Text

/-! ### White space -/

namespace Text

theorem isWhiteSpace_of_isDigit {c : Char} (h : c.isDigit) : Unicode.isWhiteSpace c = false := by
  have hdigits : ∀ n < 58, 48 ≤ n → Unicode.whiteSpaceSet.contains n = false := by decide +kernel
  obtain ⟨hlow, hhigh⟩ := Char.isDigit_iff_toNat.mp h
  exact hdigits _ (Nat.lt_succ_of_le hhigh) hlow

/-- A text that neither begins nor ends with white space is left as it is. -/
theorem trim_of_ends {c d : Char} (hc : Unicode.isWhiteSpace c = false) (hd : Unicode.isWhiteSpace d = false)
    (between : List Char) : trim (String.ofList (c :: between ++ [d])) = String.ofList (c :: between ++ [d]) := by
  simp [trim, hc, hd]

end Text

namespace Instant

variable {t : Instant}

theorem regular_of_not_inLeapSecond (h : t.inLeapSecond = false) : t.Regular := fun hleap =>
  absurd (h.symm.trans hleap) Bool.false_ne_true

/-! ### Printing -/

theorem paddedInt_eq_yearText {year : Int} (h : 0 ≤ year ∧ year ≤ 9999) : paddedInt 4 year = yearText year := by
  have hnat : year.natAbs = year.toNat := by omega
  rw [paddedInt, if_neg (by omega), yearText, if_pos h, hnat]

/-- What the tokens of the format show, one after the other. -/
theorem formatChars_default (t : LocalTime) : t.formatChars LocalTime.defaultFormat.toList = .ok
    (paddedInt 4 t.date.year ++ '-' :: (paddedDigits 2 t.date.month ++ '-' :: (paddedDigits 2 t.date.day ++
      'T' :: (paddedDigits 2 t.hour ++ ':' :: (paddedDigits 2 t.minute ++ ':' :: (paddedDigits 2 t.second ++
      '.' :: (paddedDigits 3 t.millisecond ++ ['Z']))))))) := rfl

theorem format_default (hleap : t.inLeapSecond = false) (hyear : 0 ≤ t.year ∧ t.year ≤ 9999) :
    (LocalTime.ofInstant t 0).format LocalTime.defaultFormat = .ok t.toText := by
  have hnanos : t.nanos < billion := by simpa [inLeapSecond] using hleap
  have hyearText : paddedInt 4 (LocalTime.ofInstant t 0).date.year = yearText (LocalTime.ofInstant t 0).date.year :=
    paddedInt_eq_yearText hyear
  have hmillis : (LocalTime.ofInstant t 0).millisecond = t.nanos % billion / 1000000 := by
    have hlocal : (LocalTime.ofInstant t 0).nanos = t.nanos := rfl
    rw [LocalTime.millisecond, hlocal]
    unfold billion at *
    omega
  -- The format has no second 60; outside leap seconds the texts need none.
  have hshown : ¬billion ≤ (LocalTime.ofInstant t 0).nanos := Nat.not_le.mpr hnanos
  rw [LocalTime.format, formatChars_default, hyearText, hmillis, toText, dateTimeText, if_neg hshown]
  simp [Except.map]

/-! ### Reading -/

theorem toText_ends (hyear : 0 ≤ t.year ∧ t.year ≤ 9999) :
    ∃ c between, c.isDigit ∧ t.toText = String.ofList (c :: between ++ ['Z']) := by
  obtain ⟨c, digits, hdigits⟩ : ∃ c digits, paddedDigits 4 t.year.toNat = c :: digits := by
    refine List.exists_cons_of_length_pos ?_
    rw [length_paddedDigits (by decide) (by omega)]
    decide
  have hc : c.isDigit := allDigits_paddedDigits 4 t.year.toNat c (by simp [hdigits])
  have hyearText : yearText (LocalTime.ofInstant t 0).date.year = c :: digits := by
    rw [← hdigits, yearText]
    exact if_pos hyear
  obtain ⟨more, hmore⟩ : ∃ more, dateTimeText (.ofInstant t 0) = c :: more :=
    ⟨_, by rw [dateTimeText, hyearText]; rfl⟩
  exact ⟨c, _, hc, by rw [toText, hmore]; rfl⟩

theorem ofText?_toText (hleap : t.inLeapSecond = false) (hyear : 0 ≤ t.year ∧ t.year ≤ 9999) :
    ofText? t.toText = some t.cut := by
  obtain ⟨c, between, hc, htext⟩ := toText_ends hyear
  have htrim : trim t.toText = t.toText := by rw [htext, trim_of_ends (isWhiteSpace_of_isDigit hc) (by decide)]
  have hread : ofStandard? t.toText = some t.cut := by
    rw [ofStandard?_toText (regular_of_not_inLeapSecond hleap), if_pos hyear]
  unfold ofText?
  simp only [htrim, hread]

end Instant

namespace Expr

open Instant

variable {e a : Value} {s : Scope} {t : Instant} {text : String}

theorem evaluate_dateToString (he : evaluate e s = .ok (.date t))
    (htext : (LocalTime.ofInstant t 0).format LocalTime.defaultFormat = .ok text) :
    evaluate (.object [("$dateToString", .object [("date", e)])]) s = .ok (.string text) := by
  have hnamed : (ofValue operator? (.object [("date", e)])).named "$dateToString"
      ["date", "format", "timezone", "onNull"] = .ok [("date", ofValue operator? e)] := rfl
  have hdate : (ofValue operator? e).eval s = .ok (.date t) := he
  have hrequired : required "$dateToString" [("date", ofValue operator? e)] "date" = .ok (ofValue operator? e) := rfl
  have hformat : evalOptional [("date", ofValue operator? e)] "format" s = .ok none := rfl
  have hzone : evalOptional [("date", ofValue operator? e)] "timezone" s = .ok none := rfl
  have hutc : Dates.offset "$dateToString" none = .ok 0 := rfl
  rw [evaluate_operator Dates.toText rfl rfl, Dates.toText, hnamed]
  simp only [bind, Except.bind, pure, Except.pure, hrequired, hdate, hformat, hzone, hutc, htext]

theorem evaluate_toString (ha : Single e a) (he : evaluate e s = .ok (.date t)) :
    evaluate (.object [("$toString", a)]) s = .ok (.string t.toText) :=
  evaluate_unary (f := Conversion.toText) rfl rfl ha he

theorem evaluate_toDate (ha : Single e a) (he : evaluate e s = .ok (.string text)) (ht : ofText? text = some t) :
    evaluate (.object [("$toDate", a)]) s = .ok (.date t) := by
  rw [evaluate_unary (f := Dates.toDate) rfl rfl ha he]
  unfold Dates.toDate
  simp only [ht]

/-- A date that is in no leap second and in a year from 0 to 9999 has one text: in the format that is taken if none is
    given, as a string, and in JSON. The text is read as the date to the millisecond. -/
theorem evaluate_date_texts (he : evaluate e s = .ok (.date t)) (hleap : t.inLeapSecond = false)
    (hyear : 0 ≤ t.year ∧ t.year ≤ 9999) : ∃ text : String,
    evaluate (.object [("$dateToString", .object [("date", e)])]) s = .ok (.string text) ∧
    (∀ a, Single e a → evaluate (.object [("$toString", a)]) s = .ok (.string text)) ∧
    (Value.date t).toJson = .object [("$date", .string text)] ∧
    ∃ u : Instant, u.seconds = t.seconds ∧ u.nanos = t.nanos / 1000000 * 1000000 ∧
      ∀ (s' : Scope) (e' a' : Value), Single e' a' → evaluate e' s' = .ok (.string text) →
        evaluate (.object [("$toDate", a')]) s' = .ok (.date u) := by
  refine ⟨t.toText, evaluate_dateToString he (format_default hleap hyear), fun a ha => evaluate_toString ha he, rfl,
    t.cut, rfl, rfl, fun s' e' a' ha he' => ?_⟩
  exact evaluate_toDate ha he' (ofText?_toText hleap hyear)

/-- The last second of the leap day of year 0. -/
theorem evaluate_date_texts_leap_day :
    let t : Instant := ⟨-62162035201, 7999999, by decide, by decide⟩
    let u : Instant := ⟨-62162035201, 7000000, by decide, by decide⟩
    let text := "0000-02-29T23:59:59.007Z"
    let s : Scope := { root := .null }
    (evaluate (.date t) s = .ok (.date t) ∧ t.inLeapSecond = false ∧ 0 ≤ t.year ∧ t.year ≤ 9999) ∧
      evaluate (.object [("$dateToString", .object [("date", .date t)])]) s = .ok (.string text) ∧
      evaluate (.object [("$toString", .date t)]) s = .ok (.string text) ∧
      (Value.date t).toJson = .object [("$date", .string text)] ∧
      evaluate (.object [("$toDate", .string text)]) s = .ok (.date u) := by
  intro t u text s
  have hdate : evaluate (.date t) s = .ok (.date t) := rfl
  have hstring : evaluate (.string text) s = .ok (.string text) := by
    unfold text
    rfl
  have hyear : 0 ≤ t.year ∧ t.year ≤ 9999 := by decide +kernel
  obtain ⟨shown, hformat, hscalar, hjson, v, hseconds, hnanos, hread⟩ := evaluate_date_texts hdate rfl hyear
  have hshown : shown = text := by
    have htext : t.toText = text := by decide +kernel
    have hjsonText : (Value.date t).toJson = .object [("$date", .string t.toText)] := rfl
    rw [hjsonText] at hjson
    simpa [htext] using hjson.symm
  have hv : v = u := by
    obtain ⟨seconds, nanos, _, _⟩ := v
    obtain rfl : seconds = -62162035201 := hseconds
    obtain rfl : nanos = 7000000 := hnanos.trans (by decide)
    rfl
  subst hshown hv
  exact ⟨⟨hdate, rfl, hyear⟩, hformat, hscalar _ (.alone rfl), hjson, hread s _ _ (.alone rfl) hstring⟩

end Expr

end DocQuery
