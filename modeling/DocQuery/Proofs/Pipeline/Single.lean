import DocQuery.Proofs.Pipeline.Composition

/-! Pipelines that succeed, one stage at a time. Two pipelines one after the other succeed iff the first one does and
    the second one does on what it leaves, and a pipeline of one stage succeeds iff the stage can be read and run. -/

namespace DocQuery

open Checked

variable {docs found out : List Value} {setting : Setting} {name : String} {v : Value} {query : Query}

/-! ### Tests that hold -/

/-- The test comes to an answer, and the answer is yes. -/
def Checked.holds : Checked Bool → Bool
  | .ok b => b
  | .error _ => false

theorem Stage.keep_eq_ok {α : Type} {test : α → Checked Bool} : ∀ {xs ys : List α},
    keep test xs = .ok ys ↔ (∀ x ∈ xs, ∃ b, test x = .ok b) ∧ xs.filter (fun x => (test x).holds) = ys
  | [], ys => by
    refine ⟨fun h => ⟨List.forall_mem_nil _, Except.ok.inj h⟩, ?_⟩
    rintro ⟨-, rfl⟩
    rfl
  | x :: xs, ys => by
    rw [keep, bind_eq_ok, List.forall_mem_cons, List.filter_cons]
    -- A test that fails stops the pass, even if the document would not be kept.
    cases hx : test x with
    | error e => simp
    | ok b =>
      cases b with
      | true =>
        simp only [Except.ok.injEq, exists_eq_left', if_true, bind_eq_ok, keep_eq_ok, holds, exists_eq', true_and]
        constructor
        · rintro ⟨rest, ⟨hxs, rfl⟩, h⟩
          exact ⟨hxs, Except.ok.inj h⟩
        · rintro ⟨hxs, rfl⟩
          exact ⟨_, ⟨hxs, rfl⟩, rfl⟩
      | false => simp [keep_eq_ok, holds]

namespace Pipeline

variable {p q stages : List Value}

/-! ### Pipelines that succeed -/

theorem aggregate_eq_ok (hbound : setting.limits.maxDocuments = none) :
    aggregate (.array stages) setting docs = .ok out ↔
      ∃ steps : Pipeline, steps.WrittenAs stages ∧ runFrom setting 0 steps docs = .ok out := by
  constructor
  · intro h
    obtain ⟨steps, hsteps, -⟩ := bind_eq_ok.mp h
    have hwritten : WrittenAs steps stages := stepsFrom_eq_ok.mp hsteps
    exact ⟨steps, hwritten, (aggregate_of_writtenAs hbound hwritten docs).symm.trans h⟩
  · rintro ⟨steps, hwritten, hrun⟩
    exact (aggregate_of_writtenAs hbound hwritten docs).trans hrun

theorem aggregate_nil (hbound : setting.limits.maxDocuments = none) :
    aggregate (.array []) setting docs = .ok out ↔ docs = out := by
  rw [aggregate_of_writtenAs hbound .nil]
  exact ⟨Except.ok.inj, congrArg _⟩

theorem aggregate_append_eq_ok (hbound : setting.limits.maxDocuments = none) :
    aggregate (.array (p ++ q)) setting docs = .ok out ↔
      ∃ between, aggregate (.array p) setting docs = .ok between ∧
        aggregate (.array q) setting between = .ok out := by
  simp only [aggregate_eq_ok hbound]
  constructor
  · rintro ⟨steps, hwritten, hrun⟩
    obtain ⟨ps, qs, rfl, hps, hqs⟩ := hwritten.of_append_stages
    rw [runFrom_append, bind_eq_ok] at hrun
    obtain ⟨between, hfirst, hsecond⟩ := hrun
    -- The second part counts its stages from a later index, which shows in faults only.
    rw [runFrom_shift, mapError_eq_ok] at hsecond
    exact ⟨between, ⟨ps, hps, hfirst⟩, qs, hqs, hsecond⟩
  · rintro ⟨between, ⟨ps, hps, hfirst⟩, qs, hqs, hsecond⟩
    refine ⟨ps ++ qs, List.rel_append hps hqs, ?_⟩
    rw [runFrom_append, bind_eq_ok]
    exact ⟨between, hfirst, by rw [runFrom_shift, mapError_eq_ok]; exact hsecond⟩

/-- One stage in front of the others. -/
theorem aggregate_cons_eq_ok {first : Value} (hbound : setting.limits.maxDocuments = none) :
    aggregate (.array (first :: q)) setting docs = .ok out ↔
      ∃ between, aggregate (.array [first]) setting docs = .ok between ∧
        aggregate (.array q) setting between = .ok out := aggregate_append_eq_ok (p := [first]) hbound

/-! ### Single stages -/

/-- A pipeline of one stage, which is made of what can be read from its specification. -/
theorem aggregate_single {α : Type} {read : Checked α} {make : α → Stage} (hbound : setting.limits.maxDocuments = none)
    (hread : Stage.ofSpecification name v = read.map make) :
    aggregate (.array [.object [(name, v)]]) setting docs = .ok out ↔
      ∃ a, read = .ok a ∧ (make a).run setting name docs = .ok out := by
  rw [aggregate_eq_ok hbound]
  constructor
  · rintro ⟨steps, hwritten, hrun⟩
    obtain ⟨s, ss, ⟨_, hv, hstage⟩, hss, rfl⟩ := List.forall₂_cons_right_iff.mp hwritten
    obtain rfl := List.forall₂_nil_right_iff.mp hss
    cases hv
    rw [hread] at hstage
    obtain ⟨a, ha, hmake⟩ := map_eq_ok.mp hstage
    obtain ⟨between, hbetween, hout⟩ := bind_eq_ok.mp hrun
    obtain rfl := Except.ok.inj hout
    exact ⟨a, ha, hmake ▸ mapError_eq_ok.mp hbetween⟩
  · rintro ⟨a, ha, hrun⟩
    have hstage : Stage.ofSpecification name v = .ok (make a) := hread.trans (map_eq_ok.mpr ⟨a, ha, rfl⟩)
    refine ⟨[⟨name, make a⟩], .cons ⟨v, rfl, hstage⟩ .nil, bind_eq_ok.mpr ⟨out, ?_, rfl⟩⟩
    exact mapError_eq_ok.mpr hrun

/-- A stage that cannot fail once it has been read. -/
theorem aggregate_certain {α : Type} {read : Checked α} {make : α → Stage} {leave : α → List Value}
    (hbound : setting.limits.maxDocuments = none) (hread : Stage.ofSpecification name v = read.map make)
    (hrun : ∀ a, (make a).run setting name docs = .ok (leave a)) :
    aggregate (.array [.object [(name, v)]]) setting docs = .ok out ↔ ∃ a, read = .ok a ∧ leave a = out := by
  rw [aggregate_single hbound hread]
  simp only [hrun, Except.ok.injEq]

end Pipeline

end DocQuery
