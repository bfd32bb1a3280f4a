import DocQuery.Proofs.Pipeline.Single
import DocQuery.Proofs.Stage.Projection

/-! Projections that start from whole documents. What they compute and what they drop can be given to two stages, and
    these succeed iff the projection does. They leave what it leaves once the dropped paths have been removed from that
    once more, which need not be the same. -/

namespace DocQuery

open Checked Value

variable {docs between out : List Value} {name other : String} {f : Document → Checked Document}
  {g : Document → Document} {setting : Setting} {p : Projection} {spec added removed : Value}

namespace Stage

/-! ### Documents one by one -/

/-- The document that a change makes of another one. -/
def Makes (f : Document → Checked Document) (v w : Value) : Prop :=
  ∃ doc result, v = object doc ∧ f doc = .ok result ∧ w = object result

theorem each_eq_ok : each name f docs = .ok out ↔ List.Forall₂ (Makes f) docs out := by
  refine mapM_eq_ok.trans ⟨fun h => h.imp fun v w hvw => ?_, fun h => h.imp fun v w hvw => ?_⟩
  · obtain ⟨doc, hdoc, hresult⟩ := bind_eq_ok.mp hvw
    obtain ⟨result, hf, hw⟩ := bind_eq_ok.mp hresult
    cases hw
    cases v with
    | object =>
      cases hdoc
      exact ⟨doc, result, rfl, hf, rfl⟩
    | _ => cases hdoc
  · obtain ⟨doc, result, rfl, hf, rfl⟩ := hvw
    exact bind_eq_ok.mpr ⟨doc, rfl, bind_eq_ok.mpr ⟨result, hf, rfl⟩⟩

theorem exists_of_mem_each (h : each name f docs = .ok out) :
    ∀ v ∈ out, ∃ source doc, object source ∈ docs ∧ f source = .ok doc ∧ v = object doc := by
  have hmade := each_eq_ok.mp h
  clear h
  induction hmade with
  | nil => exact List.forall_mem_nil _
  | cons hvw _ ih =>
    obtain ⟨source, doc, rfl, hf, rfl⟩ := hvw
    refine List.forall_mem_cons.mpr ⟨⟨source, doc, List.mem_cons_self, hf, rfl⟩, fun v hv => ?_⟩
    obtain ⟨source, doc, hsource, hrest⟩ := ih v hv
    exact ⟨source, doc, List.mem_cons_of_mem _ hsource, hrest⟩

theorem each_congr {f' : Document → Checked Document} (h : ∀ doc, object doc ∈ docs → f doc = f' doc) :
    each name f docs = each name f' docs := by
  refine mapM_congr fun v hv => ?_
  cases v with
  | object doc =>
    show f doc >>= _ = f' doc >>= _
    rw [h doc hv]
  | _ => rfl

theorem each_certain (h : each other f docs = .ok between) (g : Document → Document) :
    each name (fun doc => .ok (g doc)) between = .ok (between.map (inObject g)) := by
  have hmade := each_eq_ok.mp h
  refine each_eq_ok.mpr ?_
  clear h
  induction hmade with
  | nil => exact .nil
  | cons hvw _ ih =>
    obtain ⟨doc, result, -, -, rfl⟩ := hvw
    exact .cons ⟨result, g result, rfl, rfl, rfl⟩ ih

theorem each_map_eq_ok (other : String) : each name (fun doc => (f doc).map g) docs = .ok out ↔
    ∃ between, each other f docs = .ok between ∧ between.map (inObject g) = out := by
  simp only [each_eq_ok]
  constructor
  · intro h
    induction h with
    | nil => exact ⟨[], .nil, rfl⟩
    | cons hvw _ ih =>
      obtain ⟨doc, result, rfl, hf, rfl⟩ := hvw
      obtain ⟨between, hbetween, rfl⟩ := ih
      obtain ⟨first, hfirst, rfl⟩ := map_eq_ok.mp hf
      exact ⟨object first :: between, .cons ⟨doc, first, rfl, hfirst, rfl⟩ hbetween, rfl⟩
  · rintro ⟨between, hbetween, rfl⟩
    refine List.forall₂_map_right_iff.mpr (hbetween.imp ?_)
    rintro _ _ ⟨doc, result, rfl, hf, rfl⟩
    exact ⟨doc, g result, rfl, map_eq_ok.mpr ⟨result, hf, rfl⟩, rfl⟩

end Stage

namespace Pipeline

theorem aggregate_project (hbound : setting.limits.maxDocuments = none) (hp : Projection.ofValue spec = .ok p) :
    aggregate (.array [.object [("$project", spec)]]) setting docs = .ok out ↔
      Stage.each "$project" p.applyTo docs = .ok out := by
  have hread : Stage.ofSpecification "$project" spec = (Projection.ofValue spec).map .project := rfl
  rw [aggregate_single hbound hread]
  simp only [hp, Except.ok.injEq, exists_eq_left', Stage.run]

theorem aggregate_addFields (hbound : setting.limits.maxDocuments = none) {computed : Computed}
    (hadded : Computed.ofValue "$addFields" added = .ok computed) :
    aggregate (.array [.object [("$addFields", added)]]) setting docs = .ok out ↔
      Stage.each "$addFields" computed.applyTo docs = .ok out := by
  have hread : Stage.ofSpecification "$addFields" added = (Computed.ofValue "$addFields" added).map .addFields := rfl
  rw [aggregate_single hbound hread]
  simp only [hadded, Except.ok.injEq, exists_eq_left', Stage.run]

theorem aggregate_unset (hbound : setting.limits.maxDocuments = none) {paths : List Path}
    (hremoved : Stage.unsetOf removed = .ok paths) :
    aggregate (.array [.object [("$unset", removed)]]) setting docs = .ok out ↔
      Stage.each "$unset" (fun doc => .ok (Path.removeAll paths doc)) docs = .ok out := by
  have hread : Stage.ofSpecification "$unset" removed = (Stage.unsetOf removed).map .unset := rfl
  rw [aggregate_single hbound hread]
  simp only [hremoved, Except.ok.injEq, exists_eq_left', Stage.run]
  rfl

theorem aggregate_addFields_unset (hbound : setting.limits.maxDocuments = none) {computed : Computed}
    {paths : List Path} (hadded : Computed.ofValue "$addFields" added = .ok computed)
    (hremoved : Stage.unsetOf removed = .ok paths) :
    aggregate (.array [.object [("$addFields", added)], .object [("$unset", removed)]]) setting docs = .ok out ↔
      Stage.each "$unset" (fun doc => (computed.applyTo doc).map (Path.removeAll paths)) docs = .ok out := by
  rw [aggregate_cons_eq_ok hbound, Stage.each_map_eq_ok "$addFields"]
  refine exists_congr fun between => ?_
  rw [aggregate_addFields hbound hadded, aggregate_unset hbound hremoved]
  refine and_congr_right fun hbetween => ?_
  rw [Stage.each_certain hbetween, Except.ok.injEq]

/-! ### Projections and pairs of stages -/

section Exclusion

variable (hbound : setting.limits.maxDocuments = none) (hp : Projection.ofValue spec = .ok p)
  (hmode : p.isInclusion = false) (hfields : ∀ f ∈ p.fields, f.2.Computes Distinct) (hdocs : ∀ d ∈ docs, d.Distinct)

include hbound hp hmode hfields hdocs

theorem aggregate_addFields_unset_projected (hadded : Computed.ofValue "$addFields" added = .ok p.computed)
    (hremoved : Stage.unsetOf removed = .ok p.excluded) :
    aggregate (.array [.object [("$addFields", added)], .object [("$unset", removed)]]) setting docs = .ok out ↔
      ∃ left, aggregate (.array [.object [("$project", spec)]]) setting docs = .ok left ∧
        left.map (inObject (Path.removeAll p.excluded)) = out := by
  have hsame : ∀ doc, object doc ∈ docs → (p.computed.applyTo doc).map (Path.removeAll p.excluded) =
      (p.applyTo doc).map (Path.removeAll p.excluded) := fun doc hdoc =>
    Projection.map_removeAll_applyTo hmode hfields (hdocs _ hdoc)
  rw [aggregate_addFields_unset hbound hadded hremoved, Stage.each_congr hsame,
    Stage.each_map_eq_ok "$project"]
  exact exists_congr fun left => and_congr_left fun _ => (aggregate_project hbound hp).symm

omit hmode hfields in
theorem exists_of_mem_projected (hout : aggregate (.array [.object [("$project", spec)]]) setting docs = .ok out) :
    ∀ v ∈ out, ∃ source doc, (object source).Distinct ∧ p.applyTo source = .ok doc ∧ v = object doc := by
  intro v hv
  obtain ⟨source, doc, hsource, hdoc, rfl⟩ := Stage.exists_of_mem_each ((aggregate_project hbound hp).mp hout) v hv
  exact ⟨source, doc, hdocs _ hsource, hdoc, rfl⟩

theorem removeAll_projected_iff (hout : aggregate (.array [.object [("$project", spec)]]) setting docs = .ok out) :
    out.map (inObject (Path.removeAll p.excluded)) = out ↔
      ∀ v ∈ out, ∀ path ∈ p.excluded, v.inObject path.remove = v := by
  rw [← (List.map_id' out).congr_right, List.map_inj_left]
  refine forall₂_congr fun v hv => ?_
  obtain ⟨source, doc, hsource, hdoc, rfl⟩ := exists_of_mem_projected hbound hp hdocs hout v hv
  have hdistinct := (Projection.distinct_applyTo hmode hfields hsource).of_eq_ok hdoc
  simp only [inObject, object.injEq, Path.removeAll_eq_self_iff hdistinct]

theorem removeAll_projected (hapart : p.ComputesApart)
    (hout : aggregate (.array [.object [("$project", spec)]]) setting docs = .ok out) :
    out.map (inObject (Path.removeAll p.excluded)) = out := by
  refine (removeAll_projected_iff hbound hp hmode hfields hdocs hout).mpr fun v hv path hpath => ?_
  obtain ⟨source, doc, hsource, hdoc, rfl⟩ := exists_of_mem_projected hbound hp hdocs hout v hv
  exact congrArg object ((Projection.yields_lacks hmode hfields hapart hsource hpath).of_eq_ok hdoc).same

end Exclusion

/-- A projection that starts from whole documents against two stages, one for what it computes and one for what it
    drops. The stages exist, and both sides succeed or none. The stages leave what the projection leaves, with the
    dropped paths removed from that. So they leave the same iff these find nothing there to remove, and whenever
    nothing is computed behind a dropped path that begins or continues it. -/
theorem aggregate_project_iff_addFields_unset (hbound : setting.limits.maxDocuments = none) (hspec : spec.Distinct)
    (hdocs : ∀ d ∈ docs, d.Distinct) (hp : Projection.ofValue spec = .ok p) (hmode : p.isInclusion = false) :
    (p.computed ≠ [] → p.excluded ≠ [] → (∃ added, Computed.ofValue "$addFields" added = .ok p.computed) ∧
      ∃ removed, Stage.unsetOf removed = .ok p.excluded) ∧
    ∀ added removed, Computed.ofValue "$addFields" added = .ok p.computed → Stage.unsetOf removed = .ok p.excluded →
      let projected := aggregate (.array [.object [("$project", spec)]]) setting docs
      let unset := aggregate (.array [.object [("$addFields", added)], .object [("$unset", removed)]]) setting docs
      (∀ out, unset = .ok out ↔ ∃ left, projected = .ok left ∧ left.map (inObject (Path.removeAll p.excluded)) = out) ∧
      (∀ left, projected = .ok left →
        (unset = .ok left ↔ ∀ v ∈ left, ∀ path ∈ p.excluded, v.inObject path.remove = v)) ∧
      (p.ComputesApart → ∀ out, projected = .ok out ↔ unset = .ok out) := by
  have hfields : ∀ f ∈ p.fields, f.2.Computes Distinct :=
    (Projection.yields_computes Distinct.kept hspec).of_eq_ok hp
  refine ⟨Projection.exists_stages hp, fun added removed hadded hremoved => ?_⟩
  intro projected unset
  have hunset : ∀ out, unset = .ok out ↔
      ∃ left, projected = .ok left ∧ left.map (inObject (Path.removeAll p.excluded)) = out := fun out =>
    aggregate_addFields_unset_projected hbound hp hmode hfields hdocs hadded hremoved
  refine ⟨hunset, fun left hleft => ?_, fun hapart out => ?_⟩
  · rw [hunset, hleft, ← removeAll_projected_iff hbound hp hmode hfields hdocs hleft]
    simp only [Except.ok.injEq, exists_eq_left']
  · -- What is computed beside the dropped paths leaves nothing there to be removed once more.
    have hkept : ∀ left, projected = .ok left → left.map (inObject (Path.removeAll p.excluded)) = left := fun left =>
      removeAll_projected hbound hp hmode hfields hdocs hapart
    rw [hunset]
    constructor
    · exact fun hout => ⟨out, hout, hkept out hout⟩
    · rintro ⟨left, hleft, rfl⟩
      rw [hkept left hleft]
      exact hleft

/-- The price of an order moves, and the number of a card is dropped with what is computed beside it. -/
theorem aggregate_project_iff_addFields_unset_order :
    let spec := ofJson (.object [("card.number", .integer 0), ("card.paid", .string "$price"), ("price", .integer 0)])
    let added := Value.object [("card.paid", .string "$price")]
    let removed := Value.array [.string "card.number", .string "price"]
    let docs := [ofJson (.object [("price", .integer 3), ("card", .object [("number", .integer 7)])])]
    let p : Projection :=
      ⟨[(["card", "number"], .drop), (["card", "paid"], .compute (.string "$price")), (["price"], .drop)]⟩
    (Projection.ofValue spec = .ok p ∧ p.isInclusion = false ∧ p.ComputesApart) ∧
      ∀ out, aggregate (.array [.object [("$project", spec)]]) {} docs = .ok out ↔
        aggregate (.array [.object [("$addFields", added)], .object [("$unset", removed)]]) {} docs = .ok out := by
  intro spec added removed docs p
  have hspec : spec.Distinct := (wellFormed_ofJson _).distinct
  have hdocs : ∀ d ∈ docs, d.Distinct := List.forall_mem_singleton.mpr (wellFormed_ofJson _).distinct
  have hapart : p.ComputesApart := by decide
  have hbound : ({} : Setting).limits.maxDocuments = none := rfl
  have hp : Projection.ofValue spec = .ok p := rfl
  obtain ⟨-, hpair⟩ := aggregate_project_iff_addFields_unset hbound hspec hdocs hp rfl
  obtain ⟨-, -, hsame⟩ := hpair added removed rfl rfl
  exact ⟨⟨hp, rfl, hapart⟩, hsame hapart⟩

/-- A path is dropped before a field is computed that it continues, and another one behind such a field. The former
    shows in what the projection leaves, the latter does not. -/
theorem not_aggregate_project_iff_addFields_unset :
    let spec := Value.object [("x.b", .int 0), ("x", .string "$a"), ("y", .string "$a"), ("y.b", .int 0)]
    let added := Value.object [("x", .string "$a"), ("y", .string "$a")]
    let removed := Value.array [.string "x.b", .string "y.b"]
    let a := Value.object [("b", .int 1), ("c", .int 2)]
    let docs := [Value.object [("a", a)]]
    aggregate (.array [.object [("$project", spec)]]) {} docs =
        .ok [.object [("a", a), ("x", a), ("y", .object [("c", .int 2)])]] ∧
      aggregate (.array [.object [("$addFields", added)], .object [("$unset", removed)]]) {} docs =
        .ok [.object [("a", a), ("x", .object [("c", .int 2)]), ("y", .object [("c", .int 2)])]] ∧
      ¬∀ out, aggregate (.array [.object [("$project", spec)]]) {} docs = .ok out ↔
        aggregate (.array [.object [("$addFields", added)], .object [("$unset", removed)]]) {} docs = .ok out := by
  intro spec added removed a docs
  have hprojected : aggregate (.array [.object [("$project", spec)]]) {} docs =
      .ok [.object [("a", a), ("x", a), ("y", .object [("c", .int 2)])]] := rfl
  have hunset : aggregate (.array [.object [("$addFields", added)], .object [("$unset", removed)]]) {} docs =
      .ok [.object [("a", a), ("x", .object [("c", .int 2)]), ("y", .object [("c", .int 2)])]] := rfl
  refine ⟨hprojected, hunset, fun hsame => ?_⟩
  have hboth := hunset.symm.trans ((hsame _).mp hprojected)
  simp [a] at hboth

end Pipeline

end DocQuery
