import DocQuery.Proofs.Pipeline.Composition
import DocQuery.Proofs.Stage.Limits

/-! Bounds on a run. A run that succeeds under bounds comes to the same documents without them. A run that succeeds
    without bounds is refused under them iff there are too many documents to begin with, or some stage that groups is
    given documents with too many keys. -/

namespace DocQuery

open Checked

namespace Pipeline

variable {limits : Limits} {search : Option TextSearch} {docs out : List Value} {steps : Pipeline} {index : Nat}
  {pipeline : Value}

/-- Some stage groups the documents that it is given in a run without bounds, and they have more keys than the bound
    allows. -/
def Exceeds (search : Option TextSearch) (bound : Option Nat) (steps : Pipeline) (docs : List Value) : Prop :=
  ∃ before s after between, steps = before ++ s :: after ∧ runFrom { search } 0 before docs = .ok between ∧
    s.stage.Exceeds bound between

/-! ### Steps under bounds -/

theorem runFrom_of_runFrom_limits : ∀ {steps : Pipeline} {index : Nat} {docs : List Value},
    runFrom { limits, search } index steps docs = .ok out → runFrom { search } index steps docs = .ok out
  | [], _, _, h => h
  | s :: rest, index, docs, h => by
    obtain ⟨between, hs, hrest⟩ := bind_eq_ok.mp h
    have hs' : s.run { search } index docs = .ok between :=
      mapError_eq_ok.mpr (Stage.run_of_run_limits (mapError_eq_ok.mp hs))
    exact bind_eq_ok.mpr ⟨between, hs', runFrom_of_runFrom_limits hrest⟩

/-- What a run leaves does not depend on the place of its first step. -/
theorem runFrom_eq_ok_zero {setting : Setting} :
    runFrom setting index steps docs = .ok out ↔ runFrom setting 0 steps docs = .ok out := by
  have hshift : runFrom setting (0 + index) steps docs = _ := runFrom_shift index steps 0 docs
  rw [Nat.zero_add] at hshift
  rw [hshift, mapError_eq_ok]

theorem exceeds_nil {bound : Option Nat} : ¬Exceeds search bound [] docs := fun ⟨before, s, after, _, h, _⟩ =>
  List.append_ne_nil_of_right_ne_nil before (List.cons_ne_nil s after) h.symm

/-- The first stage exceeds the bound, or a later one on what the first one leaves. -/
theorem exceeds_cons {bound : Option Nat} {s : Step} {between : List Value}
    (hs : s.run { search } 0 docs = .ok between) :
    s.stage.Exceeds bound docs ∨ Exceeds search bound steps between ↔ Exceeds search bound (s :: steps) docs := by
  constructor
  · rintro (h | ⟨before, t, after, last, rfl, hbefore, h⟩)
    · exact ⟨[], s, steps, docs, rfl, rfl, h⟩
    · exact ⟨s :: before, t, after, last, rfl, bind_eq_ok.mpr ⟨between, hs, runFrom_eq_ok_zero.mpr hbefore⟩, h⟩
  · rintro ⟨_ | ⟨s', before⟩, t, after, last, hsteps, hbefore, h⟩
    · obtain ⟨rfl, -⟩ := List.cons.inj hsteps
      obtain rfl := Except.ok.inj hbefore
      exact .inl h
    · obtain ⟨rfl, rfl⟩ := List.cons.inj hsteps
      obtain ⟨between', hs', hbefore⟩ := bind_eq_ok.mp hbefore
      obtain rfl := Except.ok.inj (hs.symm.trans hs')
      exact .inr ⟨before, t, after, last, rfl, runFrom_eq_ok_zero.mp hbefore, h⟩

theorem bounded_runFrom (limits : Limits) : ∀ {steps : Pipeline} {index : Nat} {docs : List Value},
    runFrom { search } index steps docs = .ok out →
      Bounded (·.cause.kind = .limitExceeded) (Exceeds search limits.maxGroups steps docs) out
        (runFrom { limits, search } index steps docs)
  | [], _, _, h => h ▸ .kept exceeds_nil
  | s :: rest, index, docs, h => by
    obtain ⟨between, hs, hrest⟩ := bind_eq_ok.mp h
    have hstage : s.stage.run { search } s.name docs = .ok between := mapError_eq_ok.mp hs
    have hstep : Bounded (·.cause.kind = .limitExceeded) (s.stage.Exceeds limits.maxGroups docs) between
        (s.run { limits, search } index docs) := (Stage.bounded_run limits hstage).mapError fun _ h => h
    exact (hstep.bind fun _ => bounded_runFrom limits hrest).of_iff (exceeds_cons (mapError_eq_ok.mpr hstage))

/-! ### Whole runs -/

theorem bounded_checkInput (limits : Limits) (docs : List Value) :
    Bounded (·.cause.kind = .limitExceeded) (∃ limit ∈ limits.maxDocuments, limit < docs.length) ()
      (checkInput limits docs) := by
  unfold checkInput
  split
  · next limit hbound =>
    have hexceeds : limit < docs.length ↔ ∃ limit ∈ limits.maxDocuments, limit < docs.length := by simp [hbound]
    split
    · next hover => exact .refused (hexceeds.mp hover) rfl
    · next hover => exact .kept (mt hexceeds.mpr hover)
  · next hbound => exact .kept (by simp [hbound])

/-- Bounds only refuse. A run that succeeds under bounds succeeds without them, with the same documents. A run that
    succeeds without bounds fails under them iff there are more documents than allowed, or a stage that groups is given
    documents with more keys than allowed; and then it fails because a limit is exceeded. -/
theorem aggregate_limits (limits : Limits) (search : Option TextSearch) (pipeline : Value) (docs : List Value) :
    (∀ out, aggregate pipeline { limits, search } docs = .ok out → aggregate pipeline { search } docs = .ok out) ∧
    ∀ out, aggregate pipeline { search } docs = .ok out →
      ((∃ failure, aggregate pipeline { limits, search } docs = .error failure) ↔
        (∃ limit ∈ limits.maxDocuments, limit < docs.length) ∨
          ∃ steps, ofValue pipeline = .ok steps ∧ Exceeds search limits.maxGroups steps docs) ∧
      ∀ failure, aggregate pipeline { limits, search } docs = .error failure →
        failure.cause.kind = .limitExceeded := by
  refine ⟨fun out h => ?_, fun out h => ?_⟩
  · obtain ⟨steps, hsteps, hrun⟩ := bind_eq_ok.mp h
    obtain ⟨_, -, hrun⟩ := bind_eq_ok.mp hrun
    exact bind_eq_ok.mpr ⟨steps, hsteps, bind_eq_ok.mpr ⟨(), rfl, runFrom_of_runFrom_limits hrun⟩⟩
  · obtain ⟨steps, hsteps, hrun⟩ := bind_eq_ok.mp h
    obtain ⟨_, -, hrun⟩ := bind_eq_ok.mp hrun
    -- Two bounds are asked, one for the input and one in each stage that groups.
    have hbounded : Bounded (·.cause.kind = .limitExceeded) ((∃ limit ∈ limits.maxDocuments, limit < docs.length) ∨
        Exceeds search limits.maxGroups steps docs) out (steps.run { limits, search } docs) :=
      (bounded_checkInput limits docs).bind fun _ => bounded_runFrom limits hrun
    have hread : aggregate pipeline { limits, search } docs = steps.run { limits, search } docs := by
      rw [aggregate, hsteps]
      rfl
    rw [hread]
    refine ⟨hbounded.exists_error_iff.trans (or_congr_right ?_), fun failure hfailure => hbounded.refusal hfailure⟩
    simp [hsteps]

/-- There are three tags, which is one more than allowed. -/
theorem aggregate_limits_tags :
    let pipeline := Value.array [.object [("$unwind", .string "$tags")],
      .object [("$group", .object [("_id", .string "$tags")])]]
    let docs := [Value.object [("tags", .array [.string "new", .string "red"])],
      .object [("tags", .array [.string "red", .string "old"])]]
    let limits : Limits := { maxDocuments := some 2, maxGroups := some 2 }
    ∃ out, (aggregate pipeline { limits := { maxGroups := some 3 } } docs = .ok out ∧
      aggregate pipeline {} docs = .ok out ∧ out.length = 3) ∧
        ∃ failure, aggregate pipeline { limits } docs = .error failure ∧ failure.cause.kind = .limitExceeded ∧
          ((∃ limit ∈ limits.maxDocuments, limit < docs.length) ∨
            ∃ steps, ofValue pipeline = .ok steps ∧ Exceeds none limits.maxGroups steps docs) := by
  intro pipeline docs limits
  have henough : (aggregate pipeline { limits := { maxGroups := some 3 } } docs).toOption.map List.length = some 3 := by
    decide +kernel
  have hrefused : (aggregate pipeline { limits } docs).isOk = false := by decide +kernel
  cases hout : aggregate pipeline { limits := { maxGroups := some 3 } } docs with
  | error => simp [hout, Except.toOption] at henough
  | ok out =>
    cases hfailure : aggregate pipeline { limits } docs with
    | ok => simp [hfailure, Except.isOk, Except.toBool] at hrefused
    | error failure =>
      have hrun := (aggregate_limits { maxGroups := some 3 } none pipeline docs).1 out hout
      obtain ⟨hfails, hkind⟩ := (aggregate_limits limits none pipeline docs).2 out hrun
      have hlength : out.length = 3 := by simpa [hout, Except.toOption] using henough
      exact ⟨out, ⟨rfl, hrun, hlength⟩, failure, rfl, hkind failure hfailure, hfails.mp ⟨failure, hfailure⟩⟩

end Pipeline

end DocQuery
