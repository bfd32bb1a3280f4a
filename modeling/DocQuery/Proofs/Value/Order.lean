import Mathlib.Data.List.Forall2
import DocQuery.Proofs.Value.Induction
import DocQuery.Proofs.Worth

/-! The total order of values is a total preorder. Values of different rank compare by rank, so only
    values of one rank need a closer look: numbers compare by what they are worth, the other scalars by a
    lawful order of their own, and arrays and objects by the first place where they differ. -/

namespace DocQuery

/-! ### Chains of comparisons -/

/-- The comparisons along `a ≤ b ≤ c`: the outer one is the first of the inner ones that is not equal. -/
def Chained (ab bc ac : Ordering) : Prop := ab.isLE → bc.isLE → ac = ab.then bc

namespace Chained

theorem of_transCmp {α : Type} {cmp : α → α → Ordering} [Std.TransCmp cmp] (a b c : α) :
    Chained (cmp a b) (cmp b c) (cmp a c) := fun hab hbc => by
  cases h : cmp a b with
  | lt => exact Std.TransCmp.lt_of_lt_of_isLE h hbc
  | eq => exact Std.TransCmp.congr_left h
  | gt => simp [h] at hab

theorem andThen {o₁ o₂ o₃ p₁ p₂ p₃ : Ordering} (ho : Chained o₁ o₂ o₃) (hp : Chained p₁ p₂ p₃) :
    Chained (o₁.then p₁) (o₂.then p₂) (o₃.then p₃) := by
  cases o₁ <;> cases o₂ <;> cases p₁ <;> simp_all [Chained]

end Chained

section Lists
variable {α : Type} {cmp : α → α → Ordering}

theorem compareLex_swap : ∀ {xs ys : List α}, (∀ x ∈ xs, ∀ y, cmp y x = (cmp x y).swap) →
    ys.compareLex cmp xs = (xs.compareLex cmp ys).swap
  | [], [], _ => rfl
  | [], _ :: _, _ => rfl
  | _ :: _, [], _ => rfl
  | x :: xs, y :: ys, h => by
    obtain ⟨hx, hxs⟩ := List.forall_mem_cons.mp h
    rw [List.compareLex_cons_cons, List.compareLex_cons_cons, Ordering.swap_then, hx y, compareLex_swap hxs]

theorem compareLex_chained : ∀ {xs ys zs : List α},
    (∀ x ∈ xs, ∀ y z, Chained (cmp x y) (cmp y z) (cmp x z)) →
      Chained (xs.compareLex cmp ys) (ys.compareLex cmp zs) (xs.compareLex cmp zs)
  | [], [], _, _ => fun _ _ => rfl
  | [], _ :: _, [], _ => fun _ h => by cases h
  | [], _ :: _, _ :: _, _ => fun _ _ => rfl
  | _ :: _, [], _, _ => fun h => by cases h
  | _ :: _, _ :: _, [], _ => fun _ h => by cases h
  | x :: xs, y :: ys, z :: zs, h => by
    obtain ⟨hx, hxs⟩ := List.forall_mem_cons.mp h
    simp only [List.compareLex_cons_cons]
    exact (hx y z).andThen (compareLex_chained hxs)

theorem compareLex_eq_eq : ∀ {xs ys : List α}, xs.compareLex cmp ys = .eq ↔ List.Forall₂ (cmp · · = .eq) xs ys
  | [], [] => by simp [List.compareLex_nil_nil]
  | [], _ :: _ => by simp [List.compareLex_nil_cons]
  | _ :: _, [] => by simp [List.compareLex_cons_nil]
  | x :: xs, y :: ys => by
    rw [List.compareLex_cons_cons, Ordering.then_eq_eq, List.forall₂_cons, compareLex_eq_eq]

end Lists

instance : Std.TransCmp Instant.compare :=
  inferInstanceAs (Std.TransCmp (compareLex (compareOn Instant.seconds) (compareOn Instant.nanos)))

instance : Std.LawfulEqCmp Instant.compare where
  eq_of_compare {a b} h := by
    simp only [Instant.compare, Ordering.then_eq_eq, Std.LawfulEqOrd.compare_eq_iff_eq] at h
    cases a
    cases b
    simp_all

namespace Value

variable {v w u : Value}

/-! ### Arrays and objects -/

/-- Fields compare by name, then by value. -/
def compareField (f g : String × Value) : Ordering := (Ord.compare f.1 g.1).then (compare f.2 g.2)

theorem compareItems_eq : ∀ xs ys : List Value, compareItems xs ys = xs.compareLex compare ys
  | [], [] => rfl
  | [], _ :: _ => rfl
  | _ :: _, [] => rfl
  | x :: xs, y :: ys => by rw [compareItems, compareItems_eq xs ys, List.compareLex_cons_cons]

theorem compareFields_eq : ∀ fs gs : List (String × Value), compareFields fs gs = fs.compareLex compareField gs
  | [], [] => rfl
  | [], _ :: _ => rfl
  | _ :: _, [] => rfl
  | (k, v) :: fs, (l, w) :: gs => by
    rw [compareFields, compareFields_eq fs gs, List.compareLex_cons_cons, compareField, Ordering.then_assoc]

/-! ### Ranks -/

theorem compare_of_rank_ne (h : v.rank ≠ w.rank) : v.compare w = Ord.compare v.rank w.rank := by
  cases v <;> cases w <;> first | rfl | exact absurd rfl h

/-! ### Numbers -/

/-- What a number is worth. -/
def worth? : Value → Option Worth
  | int n => some (Worth.ofInt n.toInt)
  | double x => some x.worth
  | _ => none

theorem exists_worth (h : v.rank = 1) : ∃ a, v.worth? = some a := by
  cases v <;> first | exact ⟨_, rfl⟩ | cases h

theorem rank_of_worth {a : Worth} (h : v.worth? = some a) : v.rank = 1 := by
  cases v <;> first | rfl | cases h

theorem compare_of_worth {a b : Worth} (hv : v.worth? = some a) (hw : w.worth? = some b) :
    v.compare w = a.compare b := by
  cases v <;> cases hv <;> cases w <;> cases hw
  · exact (Worth.compare_ofInt _ _).symm
  · exact compareIntDouble_eq _ _
  · rw [compare, compareIntDouble_eq]
    exact Std.OrientedCmp.eq_swap.symm
  · exact Double.compare_eq _ _

theorem chained_of_worth {a b c : Worth} (hv : v.worth? = some a) (hw : w.worth? = some b) (hu : u.worth? = some c) :
    Chained (v.compare w) (w.compare u) (v.compare u) := by
  rw [compare_of_worth hv hw, compare_of_worth hw hu, compare_of_worth hv hu]
  exact Chained.of_transCmp a b c

/-! ### The order -/

theorem swap_of_rank (h : v.rank = w.rank → w.compare v = (v.compare w).swap) :
    w.compare v = (v.compare w).swap := by
  by_cases hrank : v.rank = w.rank
  · exact h hrank
  · rw [compare_of_rank_ne hrank, compare_of_rank_ne (Ne.symm hrank)]
    exact Std.OrientedOrd.eq_swap

theorem compare_swap (v w : Value) : w.compare v = (v.compare w).swap := by
  -- Once the ranks agree `w` is built like `v`, except that null may stand for missing and numbers mix.
  induction v generalizing w with
  | missing | null =>
    refine swap_of_rank fun h => ?_
    cases w <;> cases h <;> rfl
  | int _ | double _ =>
    refine swap_of_rank fun h => ?_
    obtain ⟨a, ha⟩ := exists_worth (v := w) h.symm
    rw [compare_of_worth rfl ha, compare_of_worth ha rfl]
    exact Std.OrientedCmp.eq_swap
  | bool b =>
    refine swap_of_rank fun h => ?_
    cases w <;> cases h
    exact Std.OrientedOrd.eq_swap
  | string s =>
    refine swap_of_rank fun h => ?_
    cases w <;> cases h
    exact Std.OrientedOrd.eq_swap
  | date t =>
    refine swap_of_rank fun h => ?_
    cases w <;> cases h
    show Instant.compare _ _ = (Instant.compare _ _).swap
    exact Std.OrientedCmp.eq_swap
  | array xs ih =>
    refine swap_of_rank fun h => ?_
    cases w <;> cases h
    rw [compare, compare, compareItems_eq, compareItems_eq]
    exact compareLex_swap ih
  | object fs ih =>
    refine swap_of_rank fun h => ?_
    cases w <;> cases h
    rw [compare, compare, compareFields_eq, compareFields_eq]
    refine compareLex_swap fun f hf g => ?_
    rw [compareField, compareField, Ordering.swap_then, ih f hf g.2, Std.OrientedOrd.eq_swap (a := g.1)]

theorem rank_lt_of_isLE (h : (v.compare w).isLE) (hne : v.rank ≠ w.rank) : v.rank < w.rank := by
  rw [compare_of_rank_ne hne, Nat.isLE_compare] at h
  omega

theorem compare_of_rank_lt (h : v.rank < w.rank) : v.compare w = .lt := by
  rw [compare_of_rank_ne (Nat.ne_of_lt h), Nat.compare_eq_lt]
  exact h

/-- Only values of one rank can be chained otherwise than by their ranks. -/
theorem chained_of_rank
    (h : v.rank = w.rank → w.rank = u.rank → Chained (v.compare w) (w.compare u) (v.compare u)) :
    Chained (v.compare w) (w.compare u) (v.compare u) := by
  intro hvw hwu
  -- The first step that changes the rank settles the comparison, as ranks never fall along the chain.
  by_cases hne₁ : v.rank = w.rank
  · by_cases hne₂ : w.rank = u.rank
    · exact h hne₁ hne₂ hvw hwu
    · have hlt := rank_lt_of_isLE hwu hne₂
      rw [compare_of_rank_lt hlt, compare_of_rank_lt (hne₁ ▸ hlt)]
      cases hc : v.compare w <;> simp_all
  · have hlt := rank_lt_of_isLE hvw hne₁
    have hle : w.rank ≤ u.rank := by
      by_cases hne₂ : w.rank = u.rank
      · exact Nat.le_of_eq hne₂
      · exact Nat.le_of_lt (rank_lt_of_isLE hwu hne₂)
    rw [compare_of_rank_lt hlt, compare_of_rank_lt (Nat.lt_of_lt_of_le hlt hle)]
    rfl

theorem compare_chained (v w u : Value) : Chained (v.compare w) (w.compare u) (v.compare u) := by
  -- By rank the three values are built alike, and the induction is on the first of them.
  induction v generalizing w u with
  | missing | null =>
    refine chained_of_rank fun h₁ h₂ => ?_
    cases w <;> cases h₁ <;> cases u <;> cases h₂ <;> exact fun _ _ => rfl
  | int _ | double _ =>
    refine chained_of_rank fun h₁ h₂ => ?_
    obtain ⟨b, hb⟩ := exists_worth (v := w) h₁.symm
    obtain ⟨c, hc⟩ := exists_worth (v := u) (h₁.trans h₂).symm
    exact chained_of_worth rfl hb hc
  | bool b =>
    refine chained_of_rank fun h₁ h₂ => ?_
    cases w <;> cases h₁
    cases u <;> cases h₂
    show Chained (Ord.compare _ _) (Ord.compare _ _) (Ord.compare _ _)
    exact Chained.of_transCmp _ _ _
  | string s =>
    refine chained_of_rank fun h₁ h₂ => ?_
    cases w <;> cases h₁
    cases u <;> cases h₂
    show Chained (Ord.compare _ _) (Ord.compare _ _) (Ord.compare _ _)
    exact Chained.of_transCmp _ _ _
  | date t =>
    refine chained_of_rank fun h₁ h₂ => ?_
    cases w <;> cases h₁
    cases u <;> cases h₂
    show Chained (Instant.compare _ _) (Instant.compare _ _) (Instant.compare _ _)
    exact Chained.of_transCmp _ _ _
  | array xs ih =>
    refine chained_of_rank fun h₁ h₂ => ?_
    cases w <;> cases h₁
    cases u <;> cases h₂
    simp only [compare, compareItems_eq]
    exact compareLex_chained ih
  | object fs ih =>
    refine chained_of_rank fun h₁ h₂ => ?_
    cases w <;> cases h₁
    cases u <;> cases h₂
    simp only [compare, compareFields_eq]
    exact compareLex_chained fun f hf g k => (Chained.of_transCmp f.1 g.1 k.1).andThen (ih f hf g.2 k.2)

instance : Std.TransCmp compare where
  eq_swap {v w} := compare_swap w v
  isLE_trans {v w u} hvw hwu := by
    rw [compare_chained v w u hvw hwu]
    cases h : v.compare w <;> simp_all

theorem equal_iff : v.equal w ↔ v.compare w = .eq := beq_iff_eq

/-- Comparison is reflexive and turns around with its sides, and along a chain of values that do not fall
    the last does not lie below the first, and lies above it as soon as one step rises. -/
theorem compare_total_preorder (a b c : Value) :
    a.compare a = .eq ∧ b.compare a = (a.compare b).swap ∧
      (a.compare b ≠ .gt → b.compare c ≠ .gt →
        a.compare c ≠ .gt ∧ (a.compare b = .lt ∨ b.compare c = .lt → a.compare c = .lt)) := by
  refine ⟨Std.ReflCmp.compare_self, compare_swap a b, fun hab hbc => ?_⟩
  have hle : ∀ {o : Ordering}, o ≠ .gt → o.isLE := fun {o} ho => by cases o <;> simp_all
  have hac := compare_chained a b c (hle hab) (hle hbc)
  cases h₁ : a.compare b with
  | lt => simp [hac, h₁]
  | eq => simpa [hac, h₁] using hbc
  | gt => exact absurd h₁ hab

end Value

end DocQuery
