import Mathlib.Algebra.Ring.Nat
import Mathlib.Data.List.Basic
import DocQuery.Text.Numeral

/-! Numerals. The digits of a number in a base up to sixteen tell the number, and so does the decimal text
    of an integer. A text whose characters all pass a test is told from what comes after it when that
    begins with a character that does not pass. -/

namespace DocQuery.Text

variable {b m n : Nat} {c : Char}

/-! ### Where a text ends -/

/-- The text is empty or begins with a character that fails the test. -/
def Stops (test : Char → Bool) (rest : List Char) : Prop := ∀ c ∈ rest.head?, test c = false

theorem stops_cons {test : Char → Bool} {rest : List Char} (h : test c = false) : Stops test (c :: rest) :=
  fun _ hx => Option.some.inj hx ▸ h

theorem takeWhile_append {test : Char → Bool} {text rest : List Char} (ht : ∀ c ∈ text, test c)
    (hr : Stops test rest) : (text ++ rest).takeWhile test = text := by
  rw [List.takeWhile_append_of_pos ht]
  cases rest with
  | nil => simp
  | cons c rest => simp [hr c rfl]

theorem dropWhile_append {test : Char → Bool} {text rest : List Char} (ht : ∀ c ∈ text, test c)
    (hr : Stops test rest) : (text ++ rest).dropWhile test = rest := by
  rw [List.dropWhile_append_of_pos ht]
  cases rest with
  | nil => rfl
  | cons c rest => simp [hr c rfl]

theorem append_inj_of_stops {test : Char → Bool} {text text' rest rest' : List Char} (ht : ∀ c ∈ text, test c)
    (ht' : ∀ c ∈ text', test c) (hr : Stops test rest) (hr' : Stops test rest')
    (h : text ++ rest = text' ++ rest') : text = text' ∧ rest = rest' := by
  have heq : text = text' := by
    rw [← takeWhile_append ht hr, h, takeWhile_append ht' hr']
  subst heq
  exact ⟨rfl, List.append_cancel_left h⟩

/-! ### Digits -/

theorem exists_digit_of_mem (hb : 1 < b) (hc : c ∈ Nat.toDigits b n) : ∃ d < b, d.digitChar = c := by
  induction n using Nat.strongRecOn with
  | ind n ih =>
    rw [Nat.toDigits_eq_if hb] at hc
    split at hc
    · next hn => exact ⟨n, hn, (List.mem_singleton.mp hc).symm⟩
    · rcases List.mem_append.mp hc with h | h
      · exact ih (n / b) (Nat.div_lt_self (by omega) hb) h
      · exact ⟨n % b, Nat.mod_lt _ (by omega), (List.mem_singleton.mp h).symm⟩

theorem digitChar_inj (hm : m < 16) (hn : n < 16) (h : m.digitChar = n.digitChar) : m = n := by
  have hall : ∀ i j : Fin 16, i.val.digitChar = j.val.digitChar → i = j := by decide
  exact congrArg Fin.val (hall ⟨m, hm⟩ ⟨n, hn⟩ h)

theorem toDigits_inj (hb : 1 < b) (hb' : b ≤ 16) (h : Nat.toDigits b m = Nat.toDigits b n) : m = n := by
  induction m using Nat.strongRecOn generalizing n with
  | ind m ih =>
    have hlen : ∀ k, 0 < (Nat.toDigits b k).length := fun _ => Nat.length_toDigits_pos
    have hmod : ∀ k, k % b < b := fun k => Nat.mod_lt k (by omega)
    rw [Nat.toDigits_eq_if hb, Nat.toDigits_eq_if hb (n := n)] at h
    -- A number below the base has one digit, and any other has more than one.
    split at h <;> split at h
    · exact digitChar_inj (by omega) (by omega) (List.singleton_inj.mp h)
    · have hl := congrArg List.length h
      have hq := hlen (n / b)
      simp only [List.length_append, List.length_singleton] at hl
      omega
    · have hl := congrArg List.length h
      have hq := hlen (m / b)
      simp only [List.length_append, List.length_singleton] at hl
      omega
    · obtain ⟨hinit, hlast⟩ := List.append_inj' h rfl
      have hq := ih (m / b) (Nat.div_lt_self (by omega) hb) hinit
      have hr := digitChar_inj (Nat.lt_of_lt_of_le (hmod m) hb') (Nat.lt_of_lt_of_le (hmod n) hb')
        (List.singleton_inj.mp hlast)
      rw [← Nat.div_add_mod m b, ← Nat.div_add_mod n b, hq, hr]

/-- All characters are decimal digits. -/
def AllDigits (text : List Char) : Prop := ∀ c ∈ text, c.isDigit = true

theorem allDigits_toDigits (n : Nat) : AllDigits (Nat.toDigits 10 n) := fun _ hc =>
  Nat.isDigit_of_mem_toDigits (by decide) (Nat.le_refl 10) hc

theorem allDigits_zeros (k : Nat) : AllDigits (List.replicate k '0') := fun c hc => by
  rw [List.eq_of_mem_replicate hc]
  rfl

theorem AllDigits.append {s t : List Char} (hs : AllDigits s) (ht : AllDigits t) : AllDigits (s ++ t) :=
  fun c hc => (List.mem_append.mp hc).elim (hs c) (ht c)

/-! ### Reading digits -/

theorem naturalOf_append (s t : List Char) : naturalOf (s ++ t) = naturalOf s * 10 ^ t.length + naturalOf t := by
  show Nat.ofDigitChars 10 (s ++ t) 0 = Nat.ofDigitChars 10 s 0 * 10 ^ t.length + Nat.ofDigitChars 10 t 0
  rw [Nat.ofDigitChars_append, @Nat.ofDigitChars_eq_ofDigitChars_zero t (Nat.ofDigitChars 10 s 0), mul_comm]

theorem naturalOf_zeros (k : Nat) : naturalOf (List.replicate k '0') = 0 := by
  show Nat.ofDigitChars 10 (List.replicate k '0') 0 = 0
  rw [Nat.ofDigitChars_replicate_zero, Nat.mul_zero]

theorem naturalOf_toDigits (n : Nat) : naturalOf (Nat.toDigits 10 n) = n := Nat.ofDigitChars_ten_toDigits

theorem naturalOf_singleton (c : Char) : naturalOf [c] = c.toNat - 48 := by
  rw [naturalOf, Nat.ofDigitChars_cons, Nat.ofDigitChars_nil, Nat.mul_zero, Nat.zero_add]
  rfl

theorem naturalOf_lt {text : List Char} (h : AllDigits text) : naturalOf text < 10 ^ text.length := by
  induction text with
  | nil => decide
  | cons c rest ih =>
    have hdigit : naturalOf [c] ≤ 9 := by
      obtain ⟨-, hnine⟩ := Char.isDigit_iff_toNat.mp (h c List.mem_cons_self)
      rw [naturalOf_singleton]
      exact Nat.sub_le_sub_right hnine 48
    have hrest : naturalOf rest < 10 ^ rest.length := ih fun x hx => h x (List.mem_cons_of_mem _ hx)
    calc naturalOf (c :: rest)
      _ = naturalOf [c] * 10 ^ rest.length + naturalOf rest := naturalOf_append [c] rest
      _ < naturalOf [c] * 10 ^ rest.length + 10 ^ rest.length := Nat.add_lt_add_left hrest _
      _ = (naturalOf [c] + 1) * 10 ^ rest.length := (Nat.succ_mul ..).symm
      _ ≤ 10 * 10 ^ rest.length := Nat.mul_le_mul_right _ (Nat.succ_le_succ hdigit)
      _ = 10 ^ (c :: rest).length := by rw [List.length_cons, Nat.pow_succ, Nat.mul_comm]

/-! ### Integers -/

theorem toList_toString (n : Int) :
    (toString n).toList = if 0 ≤ n then Nat.toDigits 10 n.toNat else '-' :: Nat.toDigits 10 (-n).toNat := by
  rw [Int.toString_eq_repr, Int.repr_eq_if]
  split <;> simp

theorem mem_toString {n : Int} (hc : c ∈ (toString n).toList) : c.isDigit ∨ c = '-' := by
  rw [toList_toString] at hc
  split at hc
  · exact Or.inl (allDigits_toDigits _ c hc)
  · rcases List.mem_cons.mp hc with h | h
    · exact Or.inr h
    · exact Or.inl (allDigits_toDigits _ c h)

end DocQuery.Text
