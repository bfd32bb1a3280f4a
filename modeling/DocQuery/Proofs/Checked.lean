import Mathlib.Data.List.Forall2
import DocQuery.Fault

/-! Checked computations. A sequence of steps succeeds iff each step does. -/

namespace DocQuery.Checked

variable {α β : Type} {f : α → Checked β} {xs : List α} {ys : List β}

/-! ### One step after another -/

section Steps

variable {ε ε' : Type} {x : Except ε α}

theorem bind_eq_ok {f : α → Except ε β} {b : β} : x >>= f = .ok b ↔ ∃ a, x = .ok a ∧ f a = .ok b := by
  cases x with
  | error e => exact iff_of_false (fun h => nomatch h) fun ⟨_, h, _⟩ => nomatch h
  | ok a =>
    refine ⟨fun h => ⟨a, rfl, h⟩, fun ⟨_, ha, hf⟩ => ?_⟩
    cases ha
    exact hf

theorem map_eq_ok {f : α → β} {b : β} : x.map f = .ok b ↔ ∃ a, x = .ok a ∧ f a = b := by
  cases x <;> simp [Except.map]

theorem mapError_eq_ok {g : ε → ε'} {a : α} : x.mapError g = .ok a ↔ x = .ok a := by
  cases x <;> simp [Except.mapError]

end Steps

/-- Two checks, one after the other. -/
theorem seq_eq_ok {x y : Checked Unit} : (x >>= fun _ => y) = .ok () ↔ x = .ok () ∧ y = .ok () := by
  rw [bind_eq_ok]
  exact ⟨fun ⟨(), h⟩ => h, fun h => ⟨(), h⟩⟩

theorem not_inj {x y : Checked Bool} : (do return !(← x)) = (do return !(← y) : Checked Bool) ↔ x = y := by
  refine ⟨fun h => ?_, fun h => by rw [h]⟩
  rcases x with _ | _ | _ <;> rcases y with _ | _ | _ <;> cases h <;> rfl

theorem not_exists_ok {x : Checked α} : (∃ e, x = .error e) ↔ ¬∃ a, x = .ok a := by
  cases x <;> simp

theorem mapM_eq_ok : ∀ {xs : List α} {ys : List β},
    xs.mapM f = .ok ys ↔ List.Forall₂ (fun x y => f x = .ok y) xs ys
  | [], ys => by
    rw [List.mapM_nil, List.forall₂_nil_left_iff]
    constructor
    · intro h
      cases h
      rfl
    · rintro rfl
      rfl
  | x :: xs, ys => by
    simp only [List.mapM_cons, bind_eq_ok, mapM_eq_ok, List.forall₂_cons_left_iff]
    constructor
    · rintro ⟨y, hy, rest, hrest, h⟩
      cases h
      exact ⟨y, rest, hy, hrest, rfl⟩
    · rintro ⟨y, rest, hy, hrest, rfl⟩
      exact ⟨y, hy, rest, hrest, rfl⟩

theorem exists_mem_of_mapM (h : xs.mapM f = .ok ys) : ∀ x ∈ xs, ∃ y ∈ ys, f x = .ok y := by
  have hall := mapM_eq_ok.mp h
  clear h
  induction hall with
  | nil => exact fun _ h => nomatch h
  | cons hxy _ ih =>
    refine List.forall_mem_cons.mpr ⟨⟨_, List.mem_cons_self, hxy⟩, fun x hx => ?_⟩
    obtain ⟨y, hy, hfx⟩ := ih x hx
    exact ⟨y, List.mem_cons_of_mem _ hy, hfx⟩

theorem exists_mapM_eq_ok : ∀ {xs : List α}, (∀ x ∈ xs, ∃ y, f x = .ok y) → ∃ ys, xs.mapM f = .ok ys
  | [], _ => ⟨[], rfl⟩
  | x :: xs, h => by
    obtain ⟨⟨y, hy⟩, hxs⟩ := List.forall_mem_cons.mp h
    obtain ⟨ys, hys⟩ := exists_mapM_eq_ok hxs
    exact ⟨y :: ys, mapM_eq_ok.mpr (.cons hy (mapM_eq_ok.mp hys))⟩

theorem mapM_ok {ε : Type} {f : α → Except ε β} {g : α → β} : ∀ {xs : List α}, (∀ x ∈ xs, f x = .ok (g x)) →
    xs.mapM f = .ok (xs.map g)
  | [], _ => rfl
  | x :: xs, h => by
    obtain ⟨hx, hxs⟩ := List.forall_mem_cons.mp h
    rw [List.mapM_cons, hx, mapM_ok hxs]
    rfl

theorem mapM_congr {g : α → Checked β} : ∀ {xs : List α}, (∀ x ∈ xs, f x = g x) → xs.mapM f = xs.mapM g
  | [], _ => rfl
  | x :: xs, h => by
    obtain ⟨hx, hxs⟩ := List.forall_mem_cons.mp h
    rw [List.mapM_cons, List.mapM_cons, hx, mapM_congr hxs]

theorem foldlM_congr {step step' : β → α → Checked β} : ∀ {xs : List α} {b : β},
    (∀ x ∈ xs, ∀ b, step b x = step' b x) → xs.foldlM step b = xs.foldlM step' b
  | [], _, _ => rfl
  | x :: xs, b, h => by
    obtain ⟨hx, hxs⟩ := List.forall_mem_cons.mp h
    rw [List.foldlM_cons, List.foldlM_cons, hx b]
    exact bind_congr fun c => foldlM_congr hxs

/-- One more step at the end. -/
theorem foldlM_concat {step : β → α → Checked β} {b : β} {x : α} :
    (xs ++ [x]).foldlM step b = xs.foldlM step b >>= fun c => step c x := by
  rw [List.foldlM_append]
  refine bind_congr fun c => ?_
  rw [List.foldlM_cons]
  simp

theorem mapM_concat {x : α} (hxs : xs.mapM f = .ok ys) {y : β} (hx : f x = .ok y) :
    (xs ++ [x]).mapM f = .ok (ys ++ [y]) := by
  rw [List.mapM_append, hxs, List.mapM_cons, hx]
  rfl

end DocQuery.Checked
