import DocQuery.Pipeline
import DocQuery.Proofs.Checked

/-! Pipelines one after the other. A pipeline is read if each of its stages is, by itself, and it runs as its first
    stages and then the others on what these leave. What goes wrong is reported once, with the place of the first stage
    that cannot be read or that fails. -/

namespace DocQuery

open Checked

variable {index : Nat} {v : Value} {docs : List Value} {setting : Setting} {failure : Failure}

/-- The failure as it is reported when there are `n` more stages in front. -/
def Failure.shift (n : Nat) : Failure → Failure
  | plain cause => plain cause
  | inStage index stage cause => inStage (index + n) stage cause

/-! ### One step -/

namespace Step

variable {s : Step}

/-- The step is written as an object of its name and of a specification that can be read. -/
def WrittenAs (s : Step) (v : Value) : Prop :=
  ∃ specification, v = .object [(s.name, specification)] ∧ Stage.ofSpecification s.name specification = .ok s.stage

/-- Whether a step can be read does not depend on its place. -/
theorem ofValue_eq_ok : ofValue index v = .ok s ↔ s.WrittenAs v := by
  unfold ofValue
  split
  · next name specification =>
    rw [mapError_eq_ok, map_eq_ok]
    constructor
    · rintro ⟨stage, hstage, rfl⟩
      exact ⟨specification, rfl, hstage⟩
    · rintro ⟨_, hv, hstage⟩
      cases hv
      exact ⟨s.stage, hstage, rfl⟩
  · next fields hfields =>
    refine iff_of_false (fun h => nomatch h) ?_
    rintro ⟨specification, hv, -⟩
    exact hfields _ _ (Value.object.inj hv)
  · next hobject =>
    refine iff_of_false (fun h => nomatch h) ?_
    rintro ⟨specification, rfl, -⟩
    exact hobject _ rfl

theorem run_shift (s : Step) (n : Nat) :
    s.run setting (index + n) docs = (s.run setting index docs).mapError (·.shift n) := by
  unfold run
  cases s.stage.run setting s.name docs <;> rfl

end Step

namespace Pipeline

variable {stages : List Value} {steps : Pipeline}

/-! ### Reading -/

/-- Each step is written as the stage in its place. -/
abbrev WrittenAs (steps : Pipeline) (stages : List Value) : Prop :=
  List.Forall₂ (fun s v => Step.WrittenAs s v) steps stages

theorem stepsFrom_eq_ok : ∀ {stages : List Value} {steps : Pipeline} {index : Nat},
    stepsFrom index stages = .ok steps ↔ steps.WrittenAs stages
  | [], steps, _ => by
    rw [WrittenAs, List.forall₂_nil_right_iff]
    exact ⟨fun h => (Except.ok.inj h).symm, fun h => congrArg _ h.symm⟩
  | v :: rest, steps, index => by
    simp only [stepsFrom, bind_eq_ok, Step.ofValue_eq_ok, stepsFrom_eq_ok, List.forall₂_cons_right_iff]
    constructor
    · rintro ⟨s, hs, ss, hss, h⟩
      exact ⟨s, ss, hs, hss, (Except.ok.inj h).symm⟩
    · rintro ⟨s, ss, hs, hss, rfl⟩
      exact ⟨s, hs, ss, hss, rfl⟩

theorem runFrom_append (qs : Pipeline) : ∀ (ps : Pipeline) (index : Nat) (docs : List Value),
    runFrom setting index (ps ++ qs) docs =
      runFrom setting index ps docs >>= runFrom setting (index + ps.length) qs
  | [], _, _ => rfl
  | s :: ps, index, docs => by
    rw [List.cons_append, runFrom, runFrom, bind_assoc, List.length_cons, Nat.add_comm ps.length, ← Nat.add_assoc]
    exact bind_congr fun between => runFrom_append qs ps (index + 1) between

/-- More stages in front change nothing but the place that a failure reports. -/
theorem runFrom_shift (n : Nat) : ∀ (steps : Pipeline) (index : Nat) (docs : List Value),
    runFrom setting (index + n) steps docs = (runFrom setting index steps docs).mapError (·.shift n)
  | [], _, _ => rfl
  | s :: rest, index, docs => by
    rw [runFrom, runFrom, Step.run_shift, Nat.add_right_comm]
    cases s.run setting index docs with
    | error => rfl
    | ok between => exact runFrom_shift n rest (index + 1) between

theorem WrittenAs.of_append_stages {p q : List Value} (h : steps.WrittenAs (p ++ q)) :
    ∃ ps qs, steps = ps ++ qs ∧ ps.WrittenAs p ∧ qs.WrittenAs q :=
  ⟨_, _, (List.take_append_drop p.length steps).symm, List.forall₂_take_append steps p q h,
    List.forall₂_drop_append steps p q h⟩

theorem aggregate_of_writtenAs (hbound : setting.limits.maxDocuments = none) (h : steps.WrittenAs stages)
    (docs : List Value) : aggregate (.array stages) setting docs = runFrom setting 0 steps docs := by
  have hread : ofValue (.array stages) = .ok steps := stepsFrom_eq_ok.mpr h
  have hinput : checkInput setting.limits docs = .ok () := by rw [checkInput, hbound]
  rw [aggregate, hread]
  exact congrArg (· >>= fun _ => runFrom setting 0 steps docs) hinput

end Pipeline

end DocQuery
