import DocQuery.Pipeline
import DocQuery.Proofs.Stage.Documents

/-! Pipelines make documents of documents. In a pipeline that is read from JSON every expression is well formed, so
    each stage is given well-formed objects and leaves such, and none ever reports that something is no document. -/

namespace DocQuery

open Checked Value

namespace Pipeline

variable {v : Value} {docs : List Value} {setting : Setting}

/-! ### Reading -/

/-- All expressions in all stages are well formed. -/
def WellFormed (p : Pipeline) : Prop := ∀ step ∈ p, step.stage.WellFormed

theorem yields_step {index : Nat} (hv : v.WellFormed) :
    Yields (fun step => step.stage.WellFormed) (fun _ => True) (Step.ofValue index v) := by
  unfold Step.ofValue
  split
  · next name v =>
    have hspecification : v.WellFormed := hv.proper.values _ List.mem_cons_self
    have hstep : Yields (fun step : Step => step.stage.WellFormed) (fun _ => True)
        ((Stage.ofSpecification name v).map (Step.mk name)) :=
      (Stage.yields_ofSpecification hspecification).map fun _ h => h
    exact hstep.mapError fun _ _ => trivial
  · trivial
  · trivial

theorem yields_stepsFrom : ∀ (values : List Value) {index : Nat}, (∀ v ∈ values, v.WellFormed) →
    Yields WellFormed (fun _ => True) (stepsFrom index values)
  | [], _, _ => List.forall_mem_nil _
  | v :: rest, index, h => by
    obtain ⟨hv, hrest⟩ := List.forall_mem_cons.mp h
    refine (yields_step hv).bind fun step hstep => (yields_stepsFrom rest hrest).bind fun steps hsteps => ?_
    exact List.forall_mem_cons.mpr ⟨hstep, hsteps⟩

theorem yields_ofValue (hv : v.WellFormed) : Yields WellFormed (fun _ => True) (ofValue v) := by
  cases v with
  | array items => exact yields_stepsFrom items hv.items
  | _ => trivial

/-! ### Running -/

/-- A failure whose cause does not ask for a document, unless it is the search for words that reports it. -/
def Allows (setting : Setting) (failure : Failure) : Prop := Stage.Allows setting failure.cause

/-- One step leaves documents. -/
theorem yields_run_step {step : Step} {index : Nat} (hstep : step.stage.WellFormed) (hdocs : AreDocuments docs) :
    Yields AreDocuments (Allows setting) (step.run setting index docs) :=
  (Stage.yields_run hstep hdocs).mapError fun _ h => h

/-- Steps leave documents, however many there are. -/
theorem yields_runFrom : ∀ (p : Pipeline) {index : Nat} {docs : List Value}, p.WellFormed →
    AreDocuments docs →
      Yields AreDocuments (Allows setting) (p.runFrom setting index docs)
  | [], _, _, _, hdocs => hdocs
  | step :: rest, index, docs, hp, hdocs => by
    obtain ⟨hstep, hrest⟩ := List.forall_mem_cons.mp hp
    exact (yields_run_step hstep hdocs).bind fun docs hdocs => yields_runFrom rest hrest hdocs

theorem yields_run {p : Pipeline} (hp : p.WellFormed) (hdocs : AreDocuments docs) :
    Yields AreDocuments (Allows setting) (p.run setting docs) := by
  have hinput : FailsWith (Allows setting) (checkInput setting.limits docs) := by
    unfold checkInput
    split
    · split
      · exact Stage.allows_of_isNotDocument rfl
      · trivial
    · trivial
  exact hinput.bind fun _ _ => yields_runFrom p hp hdocs

/-- A pipeline that is read from JSON turns documents into documents. So do all its beginnings, which leave what the
    next stage is given. No stage reports that something is no document, unless its search for words does. -/
theorem documents_throughout {j : Json} {p : Pipeline} (hp : ofValue (.ofJson j) = .ok p)
    (hdocs : ∀ d ∈ docs, d.IsDocument) (setting : Setting) :
    (∀ out, p.run setting docs = .ok out → ∀ d ∈ out, d.IsDocument) ∧
      (∀ before after between, p = before ++ after → before.runFrom setting 0 docs = .ok between →
        ∀ d ∈ between, d.IsDocument) ∧
      ∀ failure, p.run setting docs = .error failure → failure.cause.isNotDocument →
        ∃ search, setting.search = some search ∧ ∃ d wanted, search d wanted = .error failure.cause := by
  have hwf : p.WellFormed := (yields_ofValue (Value.wellFormed_ofJson j)).of_eq_ok hp
  refine ⟨fun out hout => (yields_run hwf hdocs).of_eq_ok hout, fun before after between hparts hbetween => ?_,
    fun failure hfailure => (yields_run hwf hdocs).of_eq_error hfailure⟩
  have hbefore : WellFormed before := fun step hstep => hwf step (hparts ▸ List.mem_append_left after hstep)
  exact (yields_runFrom before hbefore hdocs).of_eq_ok hbetween

/-- A projection that hides a field, and the items of an array one by one. -/
theorem documents_throughout_unwound :
    let j := Json.array [.object [("$project", .object [("a", .integer 1), ("b", .string "$$REMOVE")])],
      .object [("$unwind", .string "$a")]]
    let docs := [Value.ofJson (.object [("a", .array [.integer 1, .null]), ("b", .integer 2)])]
    ∃ p, ofValue (.ofJson j) = .ok p ∧ (∀ d ∈ docs, d.IsDocument) ∧
      p.run {} docs = .ok [.object [("a", .int 1)], .object [("a", .null)]] ∧
      (∀ out, p.run {} docs = .ok out → ∀ d ∈ out, d.IsDocument) ∧
        (∀ before after between, p = before ++ after → before.runFrom {} 0 docs = .ok between →
          ∀ d ∈ between, d.IsDocument) ∧
        ∀ failure, p.run {} docs = .error failure → failure.cause.isNotDocument →
          ∃ search, ({} : Setting).search = some search ∧ ∃ d wanted, search d wanted = .error failure.cause := by
  intro j docs
  have hp : ofValue (.ofJson j) = .ok _ := rfl
  have hdocs : ∀ d ∈ docs, d.IsDocument := List.forall_mem_singleton.mpr ⟨rfl, Value.wellFormed_ofJson _⟩
  exact ⟨_, hp, hdocs, rfl, documents_throughout hp hdocs {}⟩

end Pipeline

end DocQuery
