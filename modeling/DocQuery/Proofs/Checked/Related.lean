import DocQuery.Proofs.Checked

/-! What checked computations come to. `Yields` says what the value of one may be, and what its fault.
    `Related` sets two side by side: both come to values in a relation, or both to the same fault. -/

namespace DocQuery.Checked

variable {α β γ δ : Type} {V V' : α → Prop} {W : β → Prop}

/-! ### One computation -/

section One

variable {ε ε' : Type} {F F' : ε → Prop} {x : Except ε α}

/-- The value is one of `V`, or the fault is one of `F`. -/
def Yields (V : α → Prop) (F : ε → Prop) : Except ε α → Prop
  | .ok a => V a
  | .error e => F e

@[simp] theorem yields_ok {a : α} : Yields V F (.ok a) ↔ V a := Iff.rfl

@[simp] theorem yields_error {e : ε} : Yields V F (.error e) ↔ F e := Iff.rfl

@[simp] theorem yields_pure {a : α} : Yields V F (pure a) ↔ V a := Iff.rfl

@[simp] theorem yields_throw {e : ε} : Yields V F (throw e) ↔ F e := Iff.rfl

/-- If the computation fails, then with one of `F`. -/
abbrev FailsWith (F : ε → Prop) (x : Except ε α) : Prop := Yields (fun _ => True) F x

namespace Yields

theorem of_eq_ok (h : Yields V F x) {a : α} (hx : x = .ok a) : V a := by
  rwa [hx] at h

theorem of_eq_error (h : Yields V F x) {e : ε} (hx : x = .error e) : F e := by
  rwa [hx] at h

/-- Nothing is asked. -/
theorem anyhow : Yields (fun _ => True) (fun _ => True) x := by
  cases x <;> trivial

theorem mono (h : Yields V F x) (hV : ∀ a, V a → V' a) (hF : ∀ e, F e → F' e) : Yields V' F' x := by
  cases x with
  | ok a => exact hV a h
  | error e => exact hF e h

theorem weaken (h : Yields V F x) (hF : ∀ e, F e → F' e) : Yields V F' x := h.mono (fun _ h => h) hF

theorem bind {f : α → Except ε β} (h : Yields V F x) (hf : ∀ a, V a → Yields W F (f a)) : Yields W F (x >>= f) := by
  cases x with
  | ok a => exact hf a h
  | error e => exact h

theorem map {f : α → β} (h : Yields V F x) (hf : ∀ a, V a → W (f a)) : Yields W F (x.map f) := by
  cases x with
  | ok a => exact hf a h
  | error e => exact h

theorem mapError {f : ε → ε'} {G : ε' → Prop} (h : Yields V F x) (hf : ∀ e, F e → G (f e)) :
    Yields V G (x.mapError f) := by
  cases x with
  | ok a => exact h
  | error e => exact hf e h

theorem mapM {f : α → Except ε β} : ∀ {xs : List α}, (∀ x ∈ xs, Yields W F (f x)) →
    Yields (fun ys => ∀ y ∈ ys, W y) F (xs.mapM f)
  | [], _ => yields_pure.mpr fun _ h => nomatch h
  | x :: xs, h => by
    obtain ⟨hx, hxs⟩ := List.forall_mem_cons.mp h
    rw [List.mapM_cons]
    refine hx.bind fun y hy => (mapM hxs).bind fun ys hys => ?_
    exact yields_pure.mpr (List.forall_mem_cons.mpr ⟨hy, hys⟩)

theorem mapM_failsWith {f : α → Except ε β} {xs : List α} (h : ∀ x ∈ xs, FailsWith F (f x)) : FailsWith F (xs.mapM f) :=
  (mapM h).mono (fun _ _ => trivial) fun _ he => he

theorem foldlM {f : β → α → Except ε β} : ∀ {xs : List α} {b : β}, W b →
    (∀ x ∈ xs, ∀ b, W b → Yields W F (f b x)) → Yields W F (xs.foldlM f b)
  | [], _, hb, _ => hb
  | x :: xs, b, hb, h => by
    obtain ⟨hx, hxs⟩ := List.forall_mem_cons.mp h
    rw [List.foldlM_cons]
    exact (hx b hb).bind fun c hc => foldlM hc hxs

theorem anyM {f : α → Except ε Bool} : ∀ {xs : List α}, (∀ x ∈ xs, FailsWith F (f x)) → FailsWith F (xs.anyM f)
  | [], _ => trivial
  | x :: xs, h => by
    obtain ⟨hx, hxs⟩ := List.forall_mem_cons.mp h
    refine hx.bind fun found _ => ?_
    cases found with
    | true => trivial
    | false => exact anyM hxs

end Yields

end One

/-! ### Two computations -/

variable {F : Fault → Prop} {x y : Checked α}

/-- Both come to values in the relation, or both to the same fault, which is one of `F`. -/
inductive Related (R : α → β → Prop) (F : Fault → Prop) : Checked α → Checked β → Prop
  | ok {a : α} {b : β} : R a b → Related R F (.ok a) (.ok b)
  | error {e : Fault} : F e → Related R F (.error e) (.error e)

/-- Both are the same, and one of `V`. -/
def Same (V : α → Prop) (a b : α) : Prop := a = b ∧ V a

theorem related_of_yields (h : Yields V F x) : Related (Same V) F x x := by
  cases x with
  | ok a => exact .ok ⟨rfl, h⟩
  | error e => exact .error h

namespace Related

theorem eq (h : Related (Same V) F x y) : x = y := by
  cases h with
  | ok h => exact congrArg _ h.1
  | error => rfl

theorem yields (h : Related (Same V) F x y) : Yields V F x := by
  cases h with
  | ok h => exact h.2
  | error h => exact h

theorem bind {R : α → β → Prop} {S : γ → δ → Prop} {x : Checked α} {y : Checked β} {f : α → Checked γ}
    {g : β → Checked δ} (h : Related R F x y) (hfg : ∀ a b, R a b → Related S F (f a) (g b)) :
    Related S F (x >>= f) (y >>= g) := by
  cases h with
  | ok h => exact hfg _ _ h
  | error h => exact .error h

/-- Goes on from the same value on both sides. -/
theorem step {S : γ → δ → Prop} {f : α → Checked γ} {g : α → Checked δ} (h : Related (Same V) F x y)
    (hfg : ∀ a, V a → Related S F (f a) (g a)) : Related S F (x >>= f) (y >>= g) := by
  refine h.bind ?_
  rintro a _ ⟨rfl, ha⟩
  exact hfg a ha

/-- Goes on from a computation that is the same on both sides. -/
theorem of_yields {S : γ → δ → Prop} {f : α → Checked γ} {g : α → Checked δ} (h : Yields V F x)
    (hfg : ∀ a, V a → Related S F (f a) (g a)) : Related S F (x >>= f) (x >>= g) :=
  (related_of_yields h).step hfg

theorem map {f : α → β} (h : Related (Same V) F x y) (hf : ∀ a, V a → W (f a)) :
    Related (Same W) F (x.map f) (y.map f) := by
  rw [← h.eq]
  exact related_of_yields (h.yields.map hf)

/-- What two related computations come to is the same in a view that does not tell related values apart. -/
theorem map_eq {R : α → β → Prop} {x : Checked α} {y : Checked β} {f : α → γ} {g : β → γ} (h : Related R F x y)
    (hfg : ∀ a b, R a b → f a = g b) : x.map f = y.map g := by
  cases h with
  | ok h => exact congrArg Except.ok (hfg _ _ h)
  | error => rfl

theorem mapM {f g : α → Checked β} {xs : List α} (h : ∀ x ∈ xs, Related (Same W) F (f x) (g x)) :
    Related (Same fun ys => ∀ y ∈ ys, W y) F (xs.mapM f) (xs.mapM g) := by
  induction xs with
  | nil => exact .ok ⟨rfl, fun _ h => nomatch h⟩
  | cons x xs ih =>
    obtain ⟨hx, hxs⟩ := List.forall_mem_cons.mp h
    rw [List.mapM_cons, List.mapM_cons]
    refine hx.step fun y hy => (ih hxs).step fun ys hys => ?_
    exact .ok ⟨rfl, List.forall_mem_cons.mpr ⟨hy, hys⟩⟩

/-- Two runs over the same steps. -/
theorem folds {R : β → γ → Prop} {f : β → α → Checked β} {g : γ → α → Checked γ} {xs : List α} {b : β} {c : γ}
    (hbc : R b c) (h : ∀ x ∈ xs, ∀ b c, R b c → Related R F (f b x) (g c x)) :
    Related R F (xs.foldlM f b) (xs.foldlM g c) := by
  induction xs generalizing b c with
  | nil => exact .ok hbc
  | cons x xs ih =>
    obtain ⟨hx, hxs⟩ := List.forall_mem_cons.mp h
    rw [List.foldlM_cons, List.foldlM_cons]
    exact (hx b c hbc).bind fun b c hbc => ih hbc hxs

theorem foldlM {f g : β → α → Checked β} {xs : List α} {b : β} (hb : W b)
    (h : ∀ x ∈ xs, ∀ b, W b → Related (Same W) F (f b x) (g b x)) :
    Related (Same W) F (xs.foldlM f b) (xs.foldlM g b) := by
  refine folds ⟨rfl, hb⟩ ?_
  rintro x hx b _ ⟨rfl, hb⟩
  exact h x hx b hb

end Related

end DocQuery.Checked
