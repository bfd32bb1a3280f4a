import DocQuery.Proofs.Stage.Group
import DocQuery.Stage

/-! Bounds on the number of groups. The bound is checked whenever a document starts a group, and takes no other part in
    grouping. So a stage that succeeds without a bound either succeeds with it, and leaves the same documents, or is
    given documents with more keys than the bound allows, and is refused. -/

namespace DocQuery

open Checked

/-! ### Computations under a bound -/

namespace Checked

/-- What a computation that comes to `a` without a bound comes to with it: the same if the bound is not exceeded, and
    else a refusal. -/
inductive Bounded {ε α : Type} (Refusal : ε → Prop) (exceeded : Prop) (a : α) : Except ε α → Prop
  | kept : ¬exceeded → Bounded Refusal exceeded a (.ok a)
  | refused {e : ε} : exceeded → Refusal e → Bounded Refusal exceeded a (.error e)

namespace Bounded

variable {ε ε' α β : Type} {Refusal : ε → Prop} {P Q : Prop} {a : α} {b : β} {x : Except ε α}

theorem bind {f : α → Except ε β} (hx : Bounded Refusal P a x) (hf : ¬P → Bounded Refusal Q b (f a)) :
    Bounded Refusal (P ∨ Q) b (x >>= f) := by
  cases hx with
  | kept hP =>
    have hfa := hf hP
    show Bounded Refusal (P ∨ Q) b (f a)
    generalize f a = y at hfa
    cases hfa with
    | kept hQ => exact .kept (not_or.mpr ⟨hP, hQ⟩)
    | refused hQ he => exact .refused (.inr hQ) he
  | refused hP he => exact .refused (.inl hP) he

theorem map (hx : Bounded Refusal P a x) (f : α → β) : Bounded Refusal P (f a) (x.map f) := by
  cases hx with
  | kept hP => exact .kept hP
  | refused hP he => exact .refused hP he

theorem imp {Refusal' : ε → Prop} (hx : Bounded Refusal P a x) (h : ∀ e, Refusal e → Refusal' e) :
    Bounded Refusal' P a x := by
  cases hx with
  | kept hP => exact .kept hP
  | refused hP he => exact .refused hP (h _ he)

theorem mapError {Refusal' : ε' → Prop} {g : ε → ε'} (hx : Bounded Refusal P a x)
    (hg : ∀ e, Refusal e → Refusal' (g e)) : Bounded Refusal' P a (x.mapError g) := by
  cases hx with
  | kept hP => exact .kept hP
  | refused hP he => exact .refused hP (hg _ he)

theorem of_iff (hx : Bounded Refusal P a x) (h : P ↔ Q) : Bounded Refusal Q a x := propext h ▸ hx

theorem exists_error_iff (hx : Bounded Refusal P a x) : (∃ e, x = .error e) ↔ P := by
  cases hx with
  | kept hP => exact iff_of_false (fun ⟨_, h⟩ => nomatch h) hP
  | refused hP => exact iff_of_true ⟨_, rfl⟩ hP

theorem refusal {e : ε} (hx : Bounded Refusal P a x) (he : x = .error e) : Refusal e := by
  cases hx with
  | kept => cases he
  | refused _ hrefusal => exact Except.error.inj he ▸ hrefusal

end Bounded

end Checked

/-! ### Grouping under a bound -/

namespace Grouping

variable {g : Grouping} {groups groups' : List Group} {docs out : List Value} {d : Value} {bound : Option Nat}

theorem Step.length_le {id : Value} (h : g.Step groups d id groups') : groups.length ≤ groups'.length := by
  have hkeys := congrArg List.length h.keys_eq
  rw [List.length_append, List.length_map, List.length_map] at hkeys
  omega

/-- The bound takes no part, or refuses a document that starts a group over it. -/
theorem add_some_cases (g : Grouping) (limit : Nat) (groups : List Group) (d : Value) :
    (g.add (some limit) groups d = g.add none groups d ∧
      ∀ groups', g.add none groups d = .ok groups' → limit < groups'.length → groups'.length = groups.length) ∨
    (g.add (some limit) groups d = .error (.tooManyGroups limit) ∧
      ∀ groups', g.add none groups d = .ok groups' → limit < groups'.length) := by
  unfold add
  cases Expr.evaluateOn g.id d with
  | error => exact .inl ⟨rfl, fun _ h => nomatch h⟩
  | ok v =>
    simp only [bind, Except.bind]
    cases groups.find? (·.key = v.orNull.key) with
    | some group =>
      refine .inl ⟨rfl, fun groups' h _ => ?_⟩
      obtain ⟨accumulators, -, h⟩ := bind_eq_ok.mp h
      cases h
      exact List.length_map ..
    | none =>
      -- Only a key that no group has makes a group, and only then the bound is asked.
      have hlength : ∀ groups', (g.feed d (g.fields.map GroupField.start) >>= fun accumulators =>
          (pure (groups ++ [⟨v.orNull, v.orNull.key, accumulators⟩]) : Checked (List Group))) = .ok groups' →
            groups'.length = groups.length + 1 := fun groups' h => by
        obtain ⟨accumulators, -, h⟩ := bind_eq_ok.mp h
        cases h
        exact List.length_append ..
      dsimp only
      split
      · next hlimit => exact .inr ⟨rfl, fun groups' h => hlength groups' h ▸ hlimit⟩
      · next hlimit => exact .inl ⟨rfl, fun groups' h hover => absurd (hlength groups' h ▸ hover) hlimit⟩

theorem add_none_of_add (h : g.add bound groups d = .ok groups') : g.add none groups d = .ok groups' := by
  cases bound with
  | none => exact h
  | some limit =>
    rcases add_some_cases g limit groups d with ⟨heq, -⟩ | ⟨herror, -⟩
    · exact heq ▸ h
    · exact nomatch herror.symm.trans h

theorem foldlM_add_none (h : docs.foldlM (g.add bound) groups = .ok groups') :
    docs.foldlM (g.add none) groups = .ok groups' := by
  induction docs generalizing groups with
  | nil => exact h
  | cons d rest ih =>
    rw [List.foldlM_cons] at h ⊢
    obtain ⟨middle, hadd, hrest⟩ := bind_eq_ok.mp h
    exact bind_eq_ok.mpr ⟨middle, add_none_of_add hadd, ih hrest⟩

/-- A pass is refused iff without the bound it comes to more groups than the bound allows. -/
theorem bounded_foldlM (limit : Nat) (h : docs.foldlM (g.add none) [] = .ok groups) :
    Bounded (· = .tooManyGroups limit) (limit < groups.length) groups (docs.foldlM (g.add (some limit)) []) := by
  induction docs using List.reverseRecOn generalizing groups with
  | nil =>
    cases h
    exact .kept (Nat.not_lt_zero _)
  | append_singleton docs d ih =>
    rw [foldlM_concat] at h ⊢
    obtain ⟨before, hbefore, hadd⟩ := bind_eq_ok.mp h
    obtain ⟨id, -, hstep⟩ := step_of_add hadd
    have hgrows := hstep.length_le
    -- Groups never become fewer, so a bound that the documents before exceed is exceeded at the end.
    have hover : limit < before.length ∨ limit < groups.length ↔ limit < groups.length := by omega
    refine ((ih hbefore).bind fun hbelow => ?_).of_iff hover
    rcases add_some_cases g limit before d with ⟨heq, hsame⟩ | ⟨herror, hmore⟩
    · rw [heq, hadd]
      exact .kept fun hlimit => hbelow (hsame groups hadd hlimit ▸ hlimit)
    · rw [herror]
      exact .refused (hmore groups hadd) rfl

/-! ### Keys -/

/-- The distinct keys of the documents, in the order in which they are met. -/
def keysOf (g : Grouping) (docs : List Value) : Checked (List String) :=
  return ((← docs.mapM g.idOf).map Value.key).eraseDups

theorem Collected.keysOf_eq {ids : List Value} (h : g.Collected docs ids groups) :
    g.keysOf docs = .ok (groups.map Group.key) := by
  rw [keysOf, h.ids_eq, h.keys_eq]
  rfl

/-- The documents have more keys than the bound allows. -/
def Exceeds (g : Grouping) (bound : Option Nat) (docs : List Value) : Prop :=
  ∃ limit ∈ bound, ∃ keys, g.keysOf docs = .ok keys ∧ limit < keys.length

theorem applyTo_none_of_applyTo (h : g.applyTo bound docs = .ok out) : g.applyTo none docs = .ok out := by
  obtain ⟨groups, hgroups, hout⟩ := bind_eq_ok.mp h
  exact bind_eq_ok.mpr ⟨groups, foldlM_add_none hgroups, hout⟩

theorem bounded_applyTo (bound : Option Nat) (h : g.applyTo none docs = .ok out) :
    Bounded (·.kind = .limitExceeded) (g.Exceeds bound docs) out (g.applyTo bound docs) := by
  obtain ⟨groups, hgroups, hout⟩ := bind_eq_ok.mp h
  cases bound with
  | none =>
    rw [h]
    exact .kept fun ⟨_, hlimit, _⟩ => nomatch hlimit
  | some limit =>
    obtain ⟨ids, hids⟩ := collected_of_foldlM hgroups
    have hexceeds : limit < groups.length ↔ g.Exceeds (some limit) docs := by
      simp [Exceeds, hids.keysOf_eq]
    have hgroup : Bounded (·.kind = .limitExceeded) (limit < groups.length) groups
        (docs.foldlM (g.add (some limit)) []) := (bounded_foldlM limit hgroups).imp fun e he => he ▸ rfl
    have hout : groups.map g.document = out := Except.ok.inj hout
    exact hout ▸ ((hgroup.map (List.map g.document)).of_iff hexceeds)

end Grouping

/-! ### Stages under a bound -/

namespace Stage

variable {s : Stage} {limits : Limits} {search : Option TextSearch} {name : String} {docs out : List Value}

/-- The grouping that the stage makes, if it makes one. -/
def grouping? : Stage → Option Grouping
  | group g => some g
  | sortByCount expression => some (.counting expression)
  | _ => none

/-- The stage groups its documents, and they have more keys than the bound allows. -/
def Exceeds (s : Stage) (bound : Option Nat) (docs : List Value) : Prop := ∃ g ∈ s.grouping?, g.Exceeds bound docs

theorem run_of_run_limits (h : s.run { limits, search } name docs = .ok out) :
    s.run { search } name docs = .ok out := by
  cases s with
  | group g => exact Grouping.applyTo_none_of_applyTo h
  | sortByCount expression =>
    obtain ⟨groups, hgroups, hout⟩ := bind_eq_ok.mp h
    exact bind_eq_ok.mpr ⟨groups, Grouping.applyTo_none_of_applyTo hgroups, hout⟩
  | _ => exact h

/-- Only stages that group are refused, when there are too many groups. -/
theorem bounded_run (limits : Limits) (h : s.run { search } name docs = .ok out) :
    Bounded (·.kind = .limitExceeded) (s.Exceeds limits.maxGroups docs) out (s.run { limits, search } name docs) := by
  have hgrouping (g : Grouping) :
      g.Exceeds limits.maxGroups docs ↔ ∃ g' ∈ some g, g'.Exceeds limits.maxGroups docs := by simp
  have hother (hnone : s.grouping? = none) : ¬s.Exceeds limits.maxGroups docs := by
    rw [Exceeds, hnone]
    exact fun ⟨_, hg, _⟩ => nomatch hg
  cases s with
  | group g => exact (Grouping.bounded_applyTo limits.maxGroups h).of_iff (hgrouping g)
  | sortByCount expression =>
    obtain ⟨groups, hgroups, hout⟩ := bind_eq_ok.mp h
    have hsorted := (Grouping.bounded_applyTo limits.maxGroups hgroups).map (sortBy [⟨["count"], true⟩])
    exact Except.ok.inj hout ▸ hsorted.of_iff (hgrouping _)
  | _ => exact h ▸ .kept (hother rfl)

end Stage

end DocQuery
