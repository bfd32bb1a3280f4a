import DocQuery.Double.Reader
import DocQuery.Proofs.Double.Shortest
import DocQuery.Proofs.Text.Digits

/-! Texts of doubles. In any layout the text of a magnitude reads back as the value of its shortest decimal,
    so two doubles never have one text. -/

namespace DocQuery

open Text

/-! ### Reading numbers -/

theorem splitSign_toDigits (n : Nat) : splitSign (Nat.toDigits 10 n) = (false, Nat.toDigits 10 n) := by
  unfold splitSign
  split
  · next h => exact absurd (allDigits_toDigits n '-' (h ▸ List.mem_cons_self)) (by decide)
  · next h => exact absurd (allDigits_toDigits n '+' (h ▸ List.mem_cons_self)) (by decide)
  · rfl

theorem intOfText?_of_splitSign {text : List Char} {negative : Bool} {n : Nat}
    (h : splitSign text = (negative, Nat.toDigits 10 n)) :
    intOfText? (String.ofList text) = some (if negative then -(n : Int) else n) := by
  have hall : (Nat.toDigits 10 n).all Char.isDigit = true := List.all_eq_true.mpr (allDigits_toDigits n)
  have hne : (Nat.toDigits 10 n).isEmpty = false := List.isEmpty_eq_false_iff.mpr Nat.toDigits_ne_nil
  simp only [intOfText?, String.toList_ofList, h, hne, hall, naturalOf_toDigits]
  rfl

/-- The exponent that ends scientific notation. -/
theorem exponentOfText?_scientific (plusSign : Bool) (e : Int) :
    exponentOfText? ('e' :: (if e < 0 then ['-'] else if plusSign then ['+'] else []) ++ Nat.toDigits 10 e.natAbs) =
      some e := by
  have hread : ∀ (sign : List Char) (negative : Bool),
      splitSign (sign ++ Nat.toDigits 10 e.natAbs) = (negative, Nat.toDigits 10 e.natAbs) →
        exponentOfText? ('e' :: sign ++ Nat.toDigits 10 e.natAbs) =
          some (if negative then -(e.natAbs : Int) else e.natAbs) := fun _ _ h => intOfText?_of_splitSign h
  split
  · rw [hread ['-'] true rfl, if_pos rfl]
    exact congrArg some (by omega)
  · have habs : (e.natAbs : Int) = e := by omega
    split
    · rw [hread ['+'] false rfl, if_neg Bool.false_ne_true, habs]
    · rw [hread [] false (splitSign_toDigits _), if_neg Bool.false_ne_true, habs]

namespace Decimal

variable {whole fraction rest : List Char} {e : Int}

theorem ofText?_point (hw : AllDigits whole) (hf : AllDigits fraction) (hne : whole ≠ [])
    (hr : Stops Char.isDigit rest) (he : exponentOfText? rest = some e) :
    ofText? (whole ++ '.' :: (fraction ++ rest)) = some ⟨naturalOf (whole ++ fraction), e - fraction.length⟩ := by
  have hpoint : ∀ r, Stops Char.isDigit ('.' :: r) := fun r => stops_cons (by decide)
  have hempty : whole.isEmpty = false := List.isEmpty_eq_false_iff.mpr hne
  simp [ofText?, takeWhile_append hw (hpoint _), dropWhile_append hw (hpoint _), takeWhile_append hf hr,
    dropWhile_append hf hr, hempty, he]

theorem ofText?_whole (hw : AllDigits whole) (hne : whole ≠ []) (hr : Stops Char.isDigit rest)
    (hpoint : ∀ r, rest ≠ '.' :: r) (he : exponentOfText? rest = some e) :
    ofText? (whole ++ rest) = some ⟨naturalOf whole, e⟩ := by
  have hempty : whole.isEmpty = false := List.isEmpty_eq_false_iff.mpr hne
  simp [ofText?, takeWhile_append hw hr, dropWhile_append hw hr, hempty, he]

end Decimal

namespace Double

theorem stops_scientific (plusSign : Bool) (e : Int) (digits : List Char) :
    Stops Char.isDigit ('e' :: (if e < 0 then ['-'] else if plusSign then ['+'] else []) ++ digits) :=
  stops_cons (by decide)

theorem stops_nil : Stops Char.isDigit [] := fun _ h => nomatch h

/-- Zeros behind the digits count for as many powers of ten. -/
theorem ofText?_zeros (pointZero : Bool) (n k : Nat) :
    ∃ d, d.value = (n * 10 ^ k : ℚ) ∧ Decimal.ofText?
      (Nat.toDigits 10 n ++ List.replicate k '0' ++ (if pointZero then ['.', '0'] else [])) = some d := by
  have hw : AllDigits (Nat.toDigits 10 n ++ List.replicate k '0') :=
    (allDigits_toDigits n).append (allDigits_zeros k)
  have hne : Nat.toDigits 10 n ++ List.replicate k '0' ≠ [] :=
    List.append_ne_nil_of_left_ne_nil Nat.toDigits_ne_nil _
  have hvalue : naturalOf (Nat.toDigits 10 n ++ List.replicate k '0') = n * 10 ^ k := by
    rw [naturalOf_append, naturalOf_toDigits, naturalOf_zeros, List.length_replicate, Nat.add_zero]
  cases pointZero
  · refine ⟨_, ?_, Decimal.ofText?_whole hw hne stops_nil (fun _ h => nomatch h) rfl⟩
    rw [Decimal.value, hvalue]
    simp
  · refine ⟨_, ?_, Decimal.ofText?_point hw (allDigits_zeros 1) hne stops_nil rfl⟩
    rw [Decimal.value, naturalOf_append, hvalue, naturalOf_zeros]
    simp

/-- Positional notation writes the decimal. -/
theorem ofText?_positional (pointZero : Bool) (n : Nat) (e : Int) :
    ∃ d, Decimal.ofText? (positional pointZero (Nat.toDigits 10 n) e) = some d ∧
      d.value = (⟨n, e⟩ : Decimal).value := by
  unfold positional
  split
  · next h =>
    obtain ⟨k, rfl⟩ := Int.eq_ofNat_of_zero_le h
    obtain ⟨d, hv, hd⟩ := ofText?_zeros pointZero n k
    refine ⟨d, hd, ?_⟩
    rw [hv, Decimal.value, zpow_natCast]
  · next h =>
    obtain ⟨m, hm, hpos⟩ : ∃ m : Nat, e = -(m : Int) ∧ 0 < m := ⟨(-e).toNat, by omega, by omega⟩
    subst hm
    simp only [neg_neg, Int.toNat_natCast]
    have hall := allDigits_toDigits n
    split
    · -- The point falls inside the digits, and stands in front of the last `m` of them.
      next hlt =>
      have hw : AllDigits ((Nat.toDigits 10 n).take ((Nat.toDigits 10 n).length - m)) :=
        fun c hc => hall c (List.mem_of_mem_take hc)
      have hf : AllDigits ((Nat.toDigits 10 n).drop ((Nat.toDigits 10 n).length - m)) :=
        fun c hc => hall c (List.mem_of_mem_drop hc)
      have hne : (Nat.toDigits 10 n).take ((Nat.toDigits 10 n).length - m) ≠ [] :=
        List.ne_nil_of_length_pos (by rw [List.length_take]; omega)
      have hread := Decimal.ofText?_point hw hf hne stops_nil rfl
      rw [List.append_nil, List.take_append_drop, naturalOf_toDigits, List.length_drop] at hread
      refine ⟨_, hread, ?_⟩
      have hlength : (Nat.toDigits 10 n).length - ((Nat.toDigits 10 n).length - m) = m := by omega
      rw [hlength, Int.zero_sub]
    · -- There are at most `m` digits: a zero, the point, and zeros up to the digits.
      next hge =>
      have hf : AllDigits (List.replicate (m - (Nat.toDigits 10 n).length) '0' ++ Nat.toDigits 10 n) :=
        (allDigits_zeros _).append hall
      have hread := Decimal.ofText?_point (allDigits_zeros 1) hf (List.cons_ne_nil _ _) stops_nil rfl
      rw [List.append_nil, List.length_append, List.length_replicate,
        Nat.sub_add_cancel (Nat.not_lt.mp hge)] at hread
      refine ⟨_, hread, ?_⟩
      rw [← List.append_assoc, ← List.replicate_add, naturalOf_append, naturalOf_zeros, naturalOf_toDigits]
      simp

/-- Scientific notation writes the decimal. -/
theorem ofText?_scientific (plusSign : Bool) (n : Nat) (e : Int) :
    ∃ d, Decimal.ofText? (scientific plusSign (Nat.toDigits 10 n) e) = some d ∧
      d.value = (⟨n, e⟩ : Decimal).value := by
  obtain ⟨c, digits, hdigits⟩ := List.exists_cons_of_ne_nil (Nat.toDigits_ne_nil (b := 10) (n := n))
  have hall : AllDigits (c :: digits) := hdigits ▸ allDigits_toDigits n
  have hnat : naturalOf (c :: digits) = n := hdigits ▸ naturalOf_toDigits n
  have hw : AllDigits [c] := fun x hx => hall x (by simp_all)
  have hf : AllDigits digits := fun x hx => hall x (List.mem_cons_of_mem _ hx)
  rw [hdigits, scientific]
  dsimp only [List.tail_cons, List.take_succ_cons, List.take_zero]
  -- What the digits behind the point take away gives back the exponent of the decimal.
  have hlead : e + (c :: digits).length - 1 - digits.length = e := by
    rw [List.length_cons]
    omega
  generalize e + (c :: digits).length - 1 = lead at *
  have hstop := stops_scientific plusSign lead (Nat.toDigits 10 lead.natAbs)
  have hexp := exponentOfText?_scientific plusSign lead
  rw [List.append_assoc, List.append_assoc]
  generalize 'e' :: (if lead < 0 then ['-'] else if plusSign then ['+'] else []) ++
    Nat.toDigits 10 lead.natAbs = tail at *
  have hvalue : (⟨naturalOf (c :: digits), lead - digits.length⟩ : Decimal).value = (⟨n, e⟩ : Decimal).value := by
    rw [hnat, hlead]
  cases digits with
  | nil =>
    -- The tail starts with the letter of the exponent, so that no point is read.
    have hpoint : ∀ r, tail ≠ '.' :: r := fun r h => by
      rw [h] at hexp
      exact absurd hexp (by simp [exponentOfText?])
    refine ⟨_, Decimal.ofText?_whole hw (List.cons_ne_nil _ _) hstop hpoint hexp, ?_⟩
    simpa using hvalue
  | cons d rest =>
    exact ⟨_, Decimal.ofText?_point hw hf (List.cons_ne_nil _ _) hstop hexp, hvalue⟩

/-- The text of a magnitude reads back as the value of its shortest decimal. -/
theorem ofText?_magnitudeText (layout : Layout) (c : Nat) :
    ∃ d, Decimal.ofText? (magnitudeText layout c) = some d ∧ d.value = (shortest layout.tie c).value := by
  have hboth : ∀ isPositional : Bool, ∃ d, Decimal.ofText? (
      if isPositional then positional layout.pointZero (Nat.toDigits 10 (shortest layout.tie c).digits)
        (shortest layout.tie c).exponent
      else scientific layout.plusSign (Nat.toDigits 10 (shortest layout.tie c).digits)
        (shortest layout.tie c).exponent) = some d ∧ d.value = (shortest layout.tie c).value := fun isPositional => by
    cases isPositional
    · exact ofText?_scientific _ _ _
    · exact ofText?_positional _ _ _
  exact hboth _

/-! ### Different doubles -/

variable {layout : Layout}

/-- A magnitude is written by one code only. -/
theorem magnitudeText_inj {c d : Nat} (hc : c < finiteCodes) (hd : d < finiteCodes)
    (h : magnitudeText layout c = magnitudeText layout d) : c = d := by
  obtain ⟨x, hx, hxv⟩ := ofText?_magnitudeText layout c
  obtain ⟨y, hy, hyv⟩ := ofText?_magnitudeText layout d
  rw [h, hy] at hx
  obtain rfl := Option.some.inj hx
  rw [hxv] at hyv
  exact eq_of_holds (shortest_holds layout.tie hc) (hyv ▸ shortest_holds layout.tie hd)

/-- The characters of numbers other than digits. -/
def numberMarks : List Char := ['.', 'e', '-', '+']

theorem mem_positional {pointZero : Bool} {digits : List Char} {e : Int} (hd : AllDigits digits) {x : Char}
    (hx : x ∈ positional pointZero digits e) : x.isDigit = true ∨ x ∈ numberMarks := by
  have hpoint : '.' ∈ numberMarks := by decide
  have hzeros : ∀ k, x ∈ List.replicate k '0' → x.isDigit = true := fun k => allDigits_zeros k x
  have hend : x ∈ (if pointZero then ['.', '0'] else []) → x.isDigit = true ∨ x ∈ numberMarks := fun h => by
    cases pointZero
    · cases h
    · rcases List.mem_cons.mp h with rfl | h
      · exact Or.inr hpoint
      · exact Or.inl (hzeros 1 h)
  unfold positional at hx
  split at hx
  · simp only [List.mem_append] at hx
    rcases hx with (hx | hx) | hx
    · exact Or.inl (hd x hx)
    · exact Or.inl (hzeros _ hx)
    · exact hend hx
  · dsimp only at hx
    split at hx <;> simp only [List.mem_append, List.mem_cons, List.not_mem_nil, or_false] at hx
    · rcases hx with hx | rfl | hx
      · exact Or.inl (hd x (List.mem_of_mem_take hx))
      · exact Or.inr hpoint
      · exact Or.inl (hd x (List.mem_of_mem_drop hx))
    · rcases hx with ((rfl | rfl) | hx) | hx
      · exact Or.inl rfl
      · exact Or.inr hpoint
      · exact Or.inl (hzeros _ hx)
      · exact Or.inl (hd x hx)

theorem mem_scientific {plusSign : Bool} {digits : List Char} {e : Int} (hd : AllDigits digits) {x : Char}
    (hx : x ∈ scientific plusSign digits e) : x.isDigit = true ∨ x ∈ numberMarks := by
  have hsign : ∀ {lead : Int}, x ∈ (if lead < 0 then ['-'] else if plusSign then ['+'] else []) → x ∈ numberMarks :=
    fun {lead} h => by
      split_ifs at h
      · exact List.mem_singleton.mp h ▸ by decide
      · exact List.mem_singleton.mp h ▸ by decide
      · cases h
  unfold scientific at hx
  simp only [List.mem_append, List.mem_cons] at hx
  rcases hx with (((hx | hx) | rfl | hx) | hx)
  · exact Or.inl (hd x (List.mem_of_mem_take hx))
  · split at hx
    · cases hx
    · rcases List.mem_cons.mp hx with rfl | hx
      · exact Or.inr (by decide)
      · exact Or.inl (hd x (List.mem_of_mem_tail hx))
  · exact Or.inr (by decide)
  · exact Or.inr (hsign hx)
  · exact Or.inl (allDigits_toDigits _ x hx)

theorem mem_magnitudeText {c : Nat} {x : Char} (hx : x ∈ magnitudeText layout c) :
    x.isDigit = true ∨ x ∈ numberMarks := by
  unfold magnitudeText at hx
  dsimp only at hx
  split at hx <;> split at hx
  all_goals first
    | exact mem_positional (allDigits_toDigits _) hx
    | exact mem_scientific (allDigits_toDigits _) hx

theorem magnitudeText_ne_cons {c : Nat} {rest : List Char} : magnitudeText layout c ≠ '-' :: rest := fun h => by
  obtain ⟨d, hd, -⟩ := ofText?_magnitudeText layout c
  rw [h] at hd
  exact absurd hd (by simp [Decimal.ofText?, Char.isDigit])

/-- The letters in the names of NaN and infinity. -/
def nameLetters : List Char := ['N', 'a', 'i', 'n', 'f']

theorem toList_text_finite (s : Bool) (c : Fin finiteCodes) :
    (text layout (.finite s c)).toList = (if s then ['-'] else []) ++ magnitudeText layout c := by
  rw [text, String.toList_ofList]

theorem not_mem_text_finite {s : Bool} {c : Fin finiteCodes} {x : Char} (hx : x ∈ nameLetters) :
    x ∉ (text layout (.finite s c)).toList := fun hmem => by
  have hnone : nameLetters.all (fun y => !y.isDigit && y ∉ '-' :: numberMarks) = true := by decide
  obtain ⟨hdigit, hmark⟩ := Bool.and_eq_true_iff.mp (List.all_eq_true.mp hnone x hx)
  rw [toList_text_finite] at hmem
  rcases List.mem_append.mp hmem with h | h
  · cases s
    · cases h
    · exact of_decide_eq_true hmark (List.mem_singleton.mp h ▸ List.mem_cons_self)
  · rcases mem_magnitudeText h with h | h
    · simp [h] at hdigit
    · exact of_decide_eq_true hmark (List.mem_cons_of_mem _ h)

theorem text_infinite (s : Bool) : text layout (.infinite s) = if s then "-inf" else "inf" := rfl

theorem exists_mem_text {x : Double} (h : ∀ s c, x ≠ .finite s c) :
    ∃ c ∈ nameLetters, c ∈ (x.text layout).toList := by
  cases x with
  | nan => exact ⟨'N', by decide, by rw [text]; decide⟩
  | infinite s => exact ⟨'i', by decide, by rw [text_infinite]; cases s <;> decide⟩
  | finite s c => exact absurd rfl (h s c)

/-- Different doubles have different texts. -/
theorem text_injective (layout : Layout) : Function.Injective (text layout) := by
  -- Names have letters that no finite text has.
  have hname : ∀ {s c} {y : Double}, (∀ t d, y ≠ .finite t d) → text layout (.finite s c) ≠ text layout y :=
    fun {s c y} hy h => by
      obtain ⟨x, hx, hmem⟩ := @exists_mem_text layout _ hy
      exact not_mem_text_finite hx (h ▸ hmem)
  intro x y h
  cases x with
  | nan =>
    cases y with
    | nan => rfl
    | infinite t =>
      rw [text, text_infinite] at h
      cases t <;> exact absurd h (by decide)
    | finite t d => exact absurd h.symm (hname fun _ _ => nofun)
  | infinite s =>
    cases y with
    | nan =>
      rw [text, text_infinite] at h
      cases s <;> exact absurd h (by decide)
    | infinite t =>
      rw [text_infinite, text_infinite] at h
      cases s <;> cases t <;> first | rfl | exact absurd h (by decide)
    | finite t d => exact absurd h.symm (hname fun _ _ => nofun)
  | finite s c =>
    cases y with
    | nan => exact absurd h (hname fun _ _ => nofun)
    | infinite t => exact absurd h (hname fun _ _ => nofun)
    | finite t d =>
      have hlist := congrArg String.toList h
      rw [toList_text_finite, toList_text_finite] at hlist
      cases s <;> cases t
      · rw [Fin.ext (magnitudeText_inj c.isLt d.isLt hlist)]
      · exact absurd hlist magnitudeText_ne_cons
      · exact absurd hlist.symm magnitudeText_ne_cons
      · rw [Fin.ext (magnitudeText_inj c.isLt d.isLt (List.cons.inj hlist).2)]

/-! ### Texts in keys -/

theorem mem_text {x : Double} {c : Char} (hc : c ∈ (x.text layout).toList) :
    c.isDigit = true ∨ c ∈ numberMarks ++ nameLetters := by
  cases x with
  | nan =>
    have hall : "NaN".toList ⊆ nameLetters := by decide
    exact Or.inr (List.mem_append_right _ (hall hc))
  | infinite s =>
    have hall : (if s then "-inf" else "inf").toList ⊆ numberMarks ++ nameLetters := by cases s <;> decide
    exact Or.inr (hall hc)
  | finite s d =>
    have hsign : (if s then ['-'] else []) ⊆ numberMarks := by cases s <;> decide
    rw [toList_text_finite] at hc
    rcases List.mem_append.mp hc with h | h
    · exact Or.inr (List.mem_append_left _ (hsign h))
    · exact (mem_magnitudeText h).imp id (List.mem_append_left _)

/-- In keys a double is never written like an integer. -/
theorem exists_mem_text_keyLayout (x : Double) :
    ∃ c ∈ (x.text keyLayout).toList, c.isDigit = false ∧ c ≠ '-' := by
  cases x with
  | nan => exact ⟨'N', by decide⟩
  | infinite s => exact ⟨'i', by cases s <;> decide⟩
  | finite s c =>
    have hpositional : ∀ digits e, '.' ∈ positional true digits e := fun digits e => by
      unfold positional
      dsimp only
      split
      · simp
      · split <;> simp
    have hscientific : ∀ digits e, 'e' ∈ scientific keyLayout.plusSign digits e := fun digits e => by
      simp [scientific]
    -- The layout of keys always writes a point, or else an exponent.
    have hboth : ∀ (b : Bool) digits e, ∃ x ∈ if b then positional true digits e
        else scientific keyLayout.plusSign digits e, x.isDigit = false ∧ x ≠ '-' := fun b digits e => by
      cases b
      · exact ⟨'e', hscientific digits e, by decide⟩
      · exact ⟨'.', hpositional digits e, by decide⟩
    obtain ⟨x, hx, hmark⟩ : ∃ x ∈ magnitudeText keyLayout c, x.isDigit = false ∧ x ≠ '-' := hboth _ _ _
    rw [toList_text_finite]
    exact ⟨x, List.mem_append_right _ hx, hmark⟩

end Double

end DocQuery
