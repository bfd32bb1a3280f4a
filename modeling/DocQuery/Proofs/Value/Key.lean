import Mathlib
import DocQuery.Proofs.Double.Text
import DocQuery.Proofs.Text.Quoted
import DocQuery.Proofs.Value.Millis

/-! Canonical keys. Two values have one key iff they are equal to the millisecond. A key can be told from
    what follows it there, so the texts of arrays and objects can be taken apart again although nothing
    inside them says where an item ends. -/

namespace DocQuery

open Text

/-! ### Numerals -/

/-- The two zeros are integers, so a double that is no integer is the only one of its worth. -/
theorem Double.eq_of_worth {x y : Double} (hx : exactInt? x = none) (h : x.worth = y.worth) : x = y := by
  -- With no units the double would be one of the zeros, which have an exact integer.
  have hpositive : ∀ {s c}, exactInt? (.finite s c) = none → 0 < unitsOf c := fun {s c} hx => by
    by_contra hpos
    have hunits : units (.finite s c) = 0 := by
      rw [units_finite]
      cases s <;> simp <;> omega
    have hworth : worth (.finite s c) = Worth.ofInt (0 : Int64).toInt := by
      rw [worth, hunits]
      rfl
    rw [exactInt?_eq_some.mpr hworth] at hx
    cases hx
  cases x with
  | nan =>
    cases y with
    | nan => rfl
    | infinite t => cases t <;> cases h
    | finite t d => cases h
  | infinite s =>
    cases y with
    | nan => cases s <;> cases h
    | infinite t => cases s <;> cases t <;> first | rfl | cases h
    | finite t d => cases s <;> cases h
  | finite s c =>
    cases y with
    | nan => cases h
    | infinite t => cases t <;> cases h
    | finite t d =>
      have hpos := hpositive hx
      have hunits : units (.finite s c) = units (.finite t d) := congrArg Worth.units h
      rw [units_finite, units_finite] at hunits
      have hcode : unitsOf c = unitsOf d → c = d := fun h => Fin.ext (unitsOf_injective h)
      cases s <;> cases t <;> simp only [if_true, if_false, Bool.false_eq_true] at hunits
      · rw [hcode (by omega)]
      · omega
      · omega
      · rw [hcode (by omega)]

/-- The texts that stand for numbers in keys, and what they are worth. -/
inductive Numeral : Worth → String → Prop
  | int (n : Int64) : Numeral (.ofInt n.toInt) (toString n.toInt)
  | double (x : Double) : exactInt? x = none → Numeral x.worth (x.text Double.keyLayout)

namespace Numeral

variable {a b : Worth} {s t : String}

theorem inj (ha : Numeral a s) (hb : Numeral b t) : s = t ↔ a = b := by
  -- Between an integer and another double both sides fail: the text of the double has a point or a letter.
  have hmixed : ∀ {n : Int64} {x}, exactInt? x = none →
      toString n.toInt ≠ x.text Double.keyLayout ∧ Worth.ofInt n.toInt ≠ x.worth := fun {n x} hx => by
    constructor
    · intro h
      obtain ⟨c, hc, hdigit, hminus⟩ := Double.exists_mem_text_keyLayout x
      rcases mem_toString (h ▸ hc) with hd | hd
      · exact absurd hd (by simp [hdigit])
      · exact hminus hd
    · intro h
      rw [exactInt?_eq_some.mpr h.symm] at hx
      cases hx
  cases ha with
  | int m =>
    cases hb with
    | int n => exact ⟨fun h => by rw [Int.repr_injective h], fun h => by rw [Worth.ofInt_inj.mp h]⟩
    | double y hy => exact iff_of_false (hmixed hy).1 (hmixed hy).2
  | double x hx =>
    cases hb with
    | int n => exact iff_of_false (hmixed hx).1.symm (hmixed hx).2.symm
    | double y hy =>
      exact ⟨fun h => by rw [Double.text_injective _ h], fun h => by rw [Double.eq_of_worth hx h]⟩

end Numeral

namespace Value

variable {v w : Value} {r r' : List Char} {s t : String}

theorem exists_numeral {a : Worth} (h : v.worth? = some a) : ∃ s, v.key = "n:" ++ s ∧ Numeral a s := by
  cases v <;> cases h
  · next n => exact ⟨_, rfl, .int n⟩
  · next x =>
    refine ⟨numberKey x, rfl, ?_⟩
    unfold numberKey
    cases hx : exactInt? x with
    | some n =>
      rw [exactInt?_eq_some.mp hx]
      exact .int n
    | none => exact .double x hx

/-! ### Where a key ends -/

/-- The characters that part keys or close their list. -/
def boundaries : List Char := [',', ']', '\x7d']

/-- Can the character stand in a scalar? -/
def isInside (c : Char) : Bool := c ∉ boundaries

/-- What follows a key is nothing or begins with a boundary. -/
abbrev Ended (rest : List Char) : Prop := Stops isInside rest

theorem ended_nil : Ended [] := fun _ h => nomatch h

theorem ended_comma : Ended (',' :: r) := stops_cons (by decide)

theorem isInside_of_digit {c : Char} (h : c.isDigit = true) : isInside c = true := by
  have hall : boundaries.all (fun c => !c.isDigit) = true := by decide
  exact decide_eq_true fun hc => absurd (List.all_eq_true.mp hall c hc) (by simp [h])

theorem isInside_of_int {n : Int} : ∀ c ∈ (toString n).toList, isInside c = true := fun c hc => by
  rcases mem_toString hc with h | rfl
  · exact isInside_of_digit h
  · decide

theorem isInside_of_numeral {a : Worth} (h : Numeral a s) : ∀ c ∈ s.toList, isInside c = true := by
  cases h with
  | int n => exact isInside_of_int
  | double x hx =>
    have hall : (Double.numberMarks ++ Double.nameLetters).all isInside = true := by decide
    exact fun c hc => (Double.mem_text hc).elim isInside_of_digit (List.all_eq_true.mp hall c)

/-- The scalar texts before two ends are told from what follows. -/
theorem scalar_append_inj (hs : ∀ c ∈ s.toList, isInside c = true) (ht : ∀ c ∈ t.toList, isInside c = true)
    (hr : Ended r) (hr' : Ended r') (h : s.toList ++ r = t.toList ++ r') : s = t ∧ r = r' := by
  obtain ⟨hst, hrest⟩ := append_inj_of_stops hs ht hr hr' h
  exact ⟨String.toList_inj.mp hst, hrest⟩

/-! ### Lists of keys -/

section Listing
variable {α : Type} {f : α → List Char} {R : α → α → Prop} {close : Char} {xs ys : List α}

/-- The texts with commas between them, before a closing character. -/
def listing (f : α → List Char) (close : Char) (xs : List α) (rest : List Char) : List Char :=
  [','].intercalate (xs.map f) ++ close :: rest

/-- The text begins with no boundary. -/
def Begins (text : List Char) : Prop := ∃ c rest, text = c :: rest ∧ isInside c = true

/-- Wherever the text of `x` stands before an end, that is the only text of its kind there. -/
def Parted (f : α → List Char) (R : α → α → Prop) (x : α) : Prop :=
  ∀ y r r', Ended r → Ended r' → f x ++ r = f y ++ r' → R x y ∧ r = r'

theorem listing_singleton (x : α) : listing f close [x] r = f x ++ close :: r := by
  simp [listing]

theorem listing_cons_cons (x y : α) :
    listing f close (x :: y :: xs) r = f x ++ ',' :: listing f close (y :: xs) r := by
  simp [listing]

theorem listing_ne_close (hclose : close ∈ boundaries) {x : α} (hx : Begins (f x)) :
    listing f close (x :: xs) r ≠ close :: r' := fun h => by
  obtain ⟨c, text, htext, hc⟩ := hx
  refine absurd hclose (of_decide_eq_true (?_ : isInside close = true))
  cases xs with
  | nil =>
    rw [listing_singleton, htext] at h
    exact (List.cons.inj h).1 ▸ hc
  | cons y ys =>
    rw [listing_cons_cons, htext] at h
    exact (List.cons.inj h).1 ▸ hc

theorem listing_inj (hclose : close ∈ boundaries) (hcomma : close ≠ ',') (hf : ∀ x, Begins (f x)) :
    ∀ {xs ys : List α}, (∀ x ∈ xs, Parted f R x) →
      listing f close xs r = listing f close ys r' → List.Forall₂ R xs ys ∧ r = r'
  | [], [], _, h => ⟨.nil, (List.cons.inj h).2⟩
  | [], y :: ys, _, h => absurd h.symm (listing_ne_close hclose (hf y))
  | x :: xs, [], _, h => absurd h (listing_ne_close hclose (hf x))
  | x :: xs, y :: ys, hparted, h => by
    have hended : ∀ r, Ended (close :: r) := fun r => stops_cons (decide_eq_false (not_not.mpr hclose))
    obtain ⟨hx, hxs⟩ := List.forall_mem_cons.mp hparted
    -- The first texts end before a comma or the close, so both lists go on or both end here.
    match xs, ys with
    | [], [] =>
      simp only [listing_singleton] at h
      obtain ⟨hR, hrest⟩ := hx y _ _ (hended _) (hended _) h
      exact ⟨.cons hR .nil, (List.cons.inj hrest).2⟩
    | [], y' :: ys =>
      rw [listing_singleton, listing_cons_cons] at h
      exact absurd (List.cons.inj (hx y _ _ (hended _) ended_comma h).2).1 hcomma
    | x' :: xs, [] =>
      rw [listing_singleton, listing_cons_cons] at h
      exact absurd (List.cons.inj (hx y _ _ ended_comma (hended _) h).2).1 hcomma.symm
    | x' :: xs, y' :: ys =>
      simp only [listing_cons_cons] at h
      obtain ⟨hR, hrest⟩ := hx y _ _ ended_comma ended_comma h
      obtain ⟨hRs, hr⟩ := listing_inj hclose hcomma hf hxs (List.cons.inj hrest).2
      exact ⟨.cons hR hRs, hr⟩

end Listing

/-! ### Kinds of keys -/

/-- The key of a field. -/
def fieldKey (f : String × Value) : String := Text.quoted f.1 ++ ":" ++ f.2.key

theorem itemKeys_eq : ∀ items, itemKeys items = items.map key
  | [] => rfl
  | item :: rest => by rw [itemKeys, itemKeys_eq rest, List.map_cons]

theorem fieldKeys_eq : ∀ fields, fieldKeys fields = fields.map fieldKey
  | [] => rfl
  | (name, value) :: rest => by rw [fieldKeys, fieldKeys_eq rest, List.map_cons, fieldKey]

theorem toList_key_array (items : List Value) :
    (array items).key.toList ++ r = '[' :: listing (fun v => v.key.toList) ']' items r := by
  simp [key, itemKeys_eq, listing, String.toList_intercalate, Function.comp_def]

theorem toList_key_object (fields : List (String × Value)) :
    (object fields).key.toList ++ r = '\x7b' :: listing (fun f => (fieldKey f).toList) '\x7d' fields r := by
  simp [key, fieldKeys_eq, listing, String.toList_intercalate, Function.comp_def]

/-- The rank of a value, read off the beginning of its key. -/
def rankOfText : List Char → Nat
  | 'n' :: 'u' :: _ => 0
  | 'n' :: _ => 1
  | 's' :: _ => 2
  | '\x7b' :: _ => 3
  | '[' :: _ => 4
  | 'd' :: _ => 6
  | _ => 5

theorem rankOfText_key (v : Value) (r : List Char) : rankOfText (v.key.toList ++ r) = v.rank := by
  cases v with
  | array items => rw [toList_key_array]; rfl
  | object fields => rw [toList_key_object]; rfl
  | bool b => cases b <;> rfl
  | int n => simp [key, rankOfText, rank]
  | double x => simp [key, rankOfText, rank]
  | string s => simp [key, rankOfText, rank]
  | date t => simp [key, rankOfText, rank]
  | missing | null => rfl

theorem begins_key (v : Value) : Begins v.key.toList := by
  have hcons : ∀ {c rest}, v.key.toList ++ [] = c :: rest → isInside c = true → Begins v.key.toList :=
    fun {c rest} h hc => ⟨c, rest, by rw [← h, List.append_nil], hc⟩
  cases v with
  | array items => exact hcons (toList_key_array items) (by decide)
  | object fields => exact hcons (toList_key_object fields) (by decide)
  | bool b => cases b <;> exact ⟨_, _, rfl, by decide⟩
  | missing | null => exact ⟨'n', _, rfl, by decide⟩
  | int n => exact ⟨'n', _, by simp [key]; rfl, by decide⟩
  | double x => exact ⟨'n', _, by simp [key]; rfl, by decide⟩
  | string s => exact ⟨'s', _, by simp [key]; rfl, by decide⟩
  | date t => exact ⟨'d', _, by simp [key]; rfl, by decide⟩

theorem begins_fieldKey (f : String × Value) : Begins (fieldKey f).toList :=
  ⟨'"', _, by simp [fieldKey, toList_quoted]; rfl, by decide⟩

/-! ### The same key -/

/-- Only values of one rank can have texts that are not told apart at once. -/
theorem parted_of_rank (h : ∀ w r r', v.rank = w.rank → Ended r → Ended r' →
    v.key.toList ++ r = w.key.toList ++ r' → Alike v w ∧ r = r') : Parted (fun v => v.key.toList) Alike v :=
  fun w r r' hr hr' heq => h w r r' (by rw [← rankOfText_key v r, heq, rankOfText_key]) hr hr' heq

theorem parted_number {a : Worth} (hv : v.worth? = some a) : Parted (fun v => v.key.toList) Alike v :=
  parted_of_rank fun w r r' hrank hr hr' h => by
    obtain ⟨b, hw⟩ := exists_worth (v := w) (hrank.symm.trans (rank_of_worth hv))
    obtain ⟨s, hs, hns⟩ := exists_numeral hv
    obtain ⟨t, ht, hnt⟩ := exists_numeral hw
    rw [hs, ht, String.toList_append, String.toList_append, List.append_assoc, List.append_assoc] at h
    obtain ⟨rfl, hrest⟩ := scalar_append_inj (isInside_of_numeral hns) (isInside_of_numeral hnt) hr hr'
      (List.append_cancel_left h)
    exact ⟨(Alike.number hv hw).mpr ((hns.inj hnt).mp rfl), hrest⟩

theorem parted_fieldKey {f : String × Value} (hf : Parted (fun v => v.key.toList) Alike f.2) :
    Parted (fun f => (fieldKey f).toList) (fun f g => f.1 = g.1 ∧ Alike f.2 g.2) f := fun g r r' hr hr' h => by
  simp only [fieldKey, String.toList_append, List.append_assoc] at h
  obtain ⟨hname, hrest⟩ := quoted_append_inj h
  obtain ⟨halike, hend⟩ := hf g.2 r r' hr hr' (List.append_cancel_left hrest)
  exact ⟨⟨hname, halike⟩, hend⟩

/-- A key is told from what follows it, and only values that are equal to the millisecond share it. -/
theorem parted_key (v : Value) : Parted (fun v => v.key.toList) Alike v := by
  -- Nothing is known of `w` but its text, whose first characters give it the rank of `v`.
  induction v with
  | missing | null =>
    refine parted_of_rank fun w r r' hrank _ _ h => ?_
    cases w <;> cases hrank <;> exact ⟨rfl, List.append_cancel_left h⟩
  | int _ | double _ => exact parted_number rfl
  | bool b =>
    refine parted_of_rank fun w r r' hrank _ _ h => ?_
    cases w <;> cases hrank
    next c =>
    cases b <;> cases c
    · exact ⟨rfl, List.append_cancel_left h⟩
    · exact absurd (List.cons.inj h).1 (by decide)
    · exact absurd (List.cons.inj h).1 (by decide)
    · exact ⟨rfl, List.append_cancel_left h⟩
  | string s =>
    refine parted_of_rank fun w r r' hrank _ _ h => ?_
    cases w <;> cases hrank
    simp only [key, String.toList_append, List.append_assoc] at h
    obtain ⟨hst, hrest⟩ := quoted_append_inj (List.append_cancel_left h)
    exact ⟨Alike.string.mpr hst, hrest⟩
  | date t =>
    refine parted_of_rank fun w r r' hrank hr hr' h => ?_
    cases w <;> cases hrank
    simp only [key, String.toList_append, List.append_assoc] at h
    obtain ⟨hmillis, hrest⟩ := scalar_append_inj isInside_of_int isInside_of_int hr hr' (List.append_cancel_left h)
    exact ⟨Alike.date.mpr (Int.repr_injective hmillis), hrest⟩
  | array items ih =>
    refine parted_of_rank fun w r r' hrank _ _ h => ?_
    cases w <;> cases hrank
    rw [toList_key_array, toList_key_array] at h
    obtain ⟨hitems, hrest⟩ := listing_inj (by decide) (by decide) begins_key ih (List.cons.inj h).2
    exact ⟨Alike.array.mpr hitems, hrest⟩
  | object fields ih =>
    refine parted_of_rank fun w r r' hrank _ _ h => ?_
    cases w <;> cases hrank
    rw [toList_key_object, toList_key_object] at h
    obtain ⟨hfields, hrest⟩ := listing_inj (by decide) (by decide) begins_fieldKey
      (fun f hf => parted_fieldKey (ih f hf)) (List.cons.inj h).2
    exact ⟨Alike.object.mpr hfields, hrest⟩

theorem map_eq_of_forall₂ {α β : Type} {f : α → β} {R : α → α → Prop} {xs ys : List α} (h : List.Forall₂ R xs ys)
    (hf : ∀ x ∈ xs, ∀ y, R x y → f x = f y) : xs.map f = ys.map f := by
  rw [← List.forall₂_eq_eq_eq, List.forall₂_map_left_iff, List.forall₂_map_right_iff]
  exact ((List.forall₂_and_left _ _).mpr ⟨hf, h⟩).imp fun _ y hxy => hxy.1 y hxy.2

theorem Alike.key_eq_of_worth {a : Worth} (hv : v.worth? = some a) (h : Alike v w) (hrank : v.rank = w.rank) :
    v.key = w.key := by
  obtain ⟨b, hw⟩ := exists_worth (v := w) (hrank.symm.trans (rank_of_worth hv))
  obtain ⟨s, hs, hns⟩ := exists_numeral hv
  obtain ⟨t, ht, hnt⟩ := exists_numeral hw
  rw [hs, ht, (hns.inj hnt).mpr ((Alike.number hv hw).mp h)]

/-- Values that are equal to the millisecond have one key. -/
theorem Alike.key_eq (h : Alike v w) : v.key = w.key := by
  have hrank := h.rank_eq
  induction v generalizing w with
  | missing | null => cases w <;> cases hrank <;> rfl
  | int _ | double _ => exact h.key_eq_of_worth rfl hrank
  | bool b =>
    cases w <;> cases hrank
    rw [Alike.bool.mp h]
  | string s =>
    cases w <;> cases hrank
    rw [Alike.string.mp h]
  | date t =>
    cases w <;> cases hrank
    rw [key, key, Alike.date.mp h]
  | array items ih =>
    cases w <;> cases hrank
    next others =>
    have hkeys : items.map key = others.map key :=
      map_eq_of_forall₂ (Alike.array.mp h) fun v hv w hvw => ih v hv hvw hvw.rank_eq
    rw [key, key, itemKeys_eq, itemKeys_eq, hkeys]
  | object fields ih =>
    cases w <;> cases hrank
    next others =>
    have hkeys : fields.map fieldKey = others.map fieldKey :=
      map_eq_of_forall₂ (Alike.object.mp h) fun f hf g hfg => by
        rw [fieldKey, fieldKey, hfg.1, ih f hf hfg.2 hfg.2.rank_eq]
    rw [key, key, fieldKeys_eq, fieldKeys_eq, hkeys]

theorem key_eq_iff_alike : v.key = w.key ↔ Alike v w :=
  ⟨fun h => (parted_key v w [] [] ended_nil ended_nil (by simp [h])).1, Alike.key_eq⟩

/-- Keys are the same for exactly the values that are equal with every date taken to the millisecond. -/
theorem key_eq_iff (a b : Value) : a.key = b.key ↔ a.toMillis.compare b.toMillis = .eq := key_eq_iff_alike

end Value

end DocQuery
