import DocQuery.Proofs.Path.Copies
import DocQuery.Proofs.Stage.Projection

/-! Projections that compute nothing. One that keeps some fields copies their paths into an empty document, and one that
    only drops fields removes their paths. Made again on what they left, they leave it as it is. -/

namespace DocQuery

open Checked Value

variable {paths : List Path} {fields : List (Path × Action)} {p : Projection} {spec : Value} {source doc : Document}
  {docs : List Document}

namespace Path

theorem distinct_removeAll (paths : List Path) (h : (object doc).Distinct) :
    (object (removeAll paths doc)).Distinct := by
  induction paths generalizing doc with
  | nil => exact h
  | cons path rest ih => exact ih (distinct_remove path h)

theorem removeAll_removeAll (paths : List Path) (h : (object doc).Distinct) :
    removeAll paths (removeAll paths doc) = removeAll paths doc := by
  refine (removeAll_eq_self_iff (distinct_removeAll paths h)).mpr fun path hpath => ?_
  rw [← remove_removeAll path paths h, removeAll_remove hpath h]

end Path

namespace Projection

/-- Nothing is computed: each field is kept or dropped. -/
def IsPlain (p : Projection) : Prop := ∀ f ∈ p.fields, f.2.isCompute = false

instance : Decidable p.IsPlain := inferInstanceAs (Decidable (∀ f ∈ p.fields, _))

/-- The paths that are copied by a projection that starts from nothing, `_id` first. -/
def copiedPaths (p : Projection) : List Path :=
  (if p.dropsId then [] else [idPath]) ++ (p.fields.filter fun f => f.2.isKeep && f.1 ≠ idPath).map (·.1)

theorem start_eq_copyAll (p : Projection) (source : Document) :
    p.start source = Path.copyAll (if p.dropsId then [] else [idPath]) source [] := by
  unfold start
  split
  · rfl
  · show _ = Path.copy idPath source []
    rw [idPath, Path.copy]
    cases source.get? "_id" <;> rfl

/-- Adding fields that are kept is to copy them, but for `_id`, which is there already. -/
theorem foldlM_addField_of_plain (hplain : ∀ f ∈ fields, f.2.isCompute = false) (source doc : Document) :
    fields.foldlM (addField source) doc =
      .ok (Path.copyAll ((fields.filter fun f => f.2.isKeep && f.1 ≠ idPath).map (·.1)) source doc) := by
  induction fields generalizing doc with
  | nil => rfl
  | cons f rest ih =>
    obtain ⟨hf, hrest⟩ := List.forall_mem_cons.mp hplain
    obtain ⟨path, action⟩ := f
    rw [List.foldlM_cons]
    cases action with
    | keep =>
      by_cases hid : path = idPath
      · subst hid
        exact ih hrest doc
      · rw [addField, if_neg hid, List.filter_cons_of_pos (by simp [Action.isKeep, hid])]
        exact ih hrest _
    | drop => exact ih hrest doc
    | compute => exact Bool.noConfusion hf

theorem applyTo_of_inclusion (hmode : p.isInclusion) (hplain : p.IsPlain) (source : Document) :
    p.applyTo source = .ok (Path.copyAll p.copiedPaths source []) := by
  rw [applyTo, if_pos hmode, foldlM_addField_of_plain hplain, start_eq_copyAll]
  exact congrArg Except.ok List.foldl_append.symm

theorem isDrop_of_exclusion (hmode : p.isInclusion = false) (hplain : p.IsPlain) : ∀ f ∈ p.fields, f.2.isDrop := by
  rintro ⟨path, action⟩ hf
  cases action with
  | keep => exact absurd rfl (List.any_eq_false.mp (Bool.or_eq_false_iff.mp hmode).1 _ hf)
  | drop => rfl
  | compute => exact Bool.noConfusion (hplain _ hf)

theorem applyTo_of_exclusion (hmode : p.isInclusion = false) (hplain : p.IsPlain) (source : Document) :
    p.applyTo source = .ok (Path.removeAll (p.fields.map (·.1)) source) := by
  rw [applyTo, if_neg (Bool.eq_false_iff.mp hmode),
    foldlM_changeField_of_drops (isDrop_of_exclusion hmode hplain)]

/-- What a projection without computed fields left is left as it is by the same projection. -/
theorem exists_applyTo_applyTo (hplain : p.IsPlain) (hsource : (object source).Distinct) :
    ∃ left, p.applyTo source = .ok left ∧ p.applyTo left = .ok left := by
  cases hmode : p.isInclusion with
  | true =>
    refine ⟨_, applyTo_of_inclusion hmode hplain source, ?_⟩
    rw [applyTo_of_inclusion hmode hplain, Path.copyAll_copyAll _ hsource]
  | false =>
    refine ⟨_, applyTo_of_exclusion hmode hplain source, ?_⟩
    rw [applyTo_of_exclusion hmode hplain, Path.removeAll_removeAll _ hsource]

end Projection

namespace Stage

theorem each_object {name : String} {f : Document → Checked Document} {g : Document → Document}
    (h : ∀ doc ∈ docs, f doc = .ok (g doc)) : each name f (docs.map object) = .ok ((docs.map g).map object) := by
  rw [each, List.mapM_map, List.map_map]
  refine mapM_ok fun doc hdoc => ?_
  show f doc >>= _ = _
  rw [h doc hdoc]
  rfl

/-- A projection without computed fields succeeds on all documents, and made again on what it left, it leaves it as it
    is, with the fields in the same order. -/
theorem run_project_project (setting : Setting) (name : String) (hp : Projection.ofValue spec = .ok p)
    (hplain : p.IsPlain) (hdocs : ∀ doc ∈ docs, (object doc).Distinct) :
    ofSpecification "$project" spec = .ok (.project p) ∧ ∃ left : List Document,
      (project p).run setting name (docs.map object) = .ok (left.map object) ∧
        (project p).run setting name (left.map object) = .ok (left.map object) := by
  choose! project hfirst hagain using fun doc hdoc => Projection.exists_applyTo_applyTo hplain (hdocs doc hdoc)
  refine ⟨?_, docs.map project, each_object hfirst, ?_⟩
  · show (Projection.ofValue spec).map Stage.project = _
    rw [hp]
    rfl
  · have hleft : ∀ left ∈ docs.map project, p.applyTo left = .ok left := List.forall_mem_map.mpr hagain
    rw [Stage.run, each_object (g := id) hleft, List.map_id]

/-- Goods are kept as a whole and by two of their fields. The last of these leaves the good out that is no object. -/
theorem run_project_project_goods :
    let spec := ofJson (.object [("goods.price", .integer 1), ("goods", .integer 1), ("goods.weight", .integer 1),
      ("_id", .integer 0)])
    let p : Projection :=
      ⟨[(["goods", "price"], .keep), (["goods"], .keep), (["goods", "weight"], .keep), (["_id"], .drop)]⟩
    let doc : Document := [("_id", .int 1), ("goods", .array [.int 5, .object [("price", .int 3), ("weight", .int 2)]])]
    let docs := [doc]
    let left : Document := [("goods", .array [.object [("weight", .int 2)]])]
    (Projection.ofValue spec = .ok p ∧ p.IsPlain ∧ ∀ doc ∈ docs, (object doc).Distinct) ∧
      (project p).run {} "$project" (docs.map object) = .ok [object left] ∧
      (project p).run {} "$project" [object left] = .ok [object left] := by
  intro spec p doc docs left
  have hp : Projection.ofValue spec = .ok p := rfl
  have hplain : p.IsPlain := by decide
  have hdocs : ∀ doc ∈ docs, (object doc).Distinct := List.forall_mem_singleton.mpr <|
    (wellFormed_ofJson (.object [("_id", .integer 1),
      ("goods", .array [.integer 5, .object [("price", .integer 3), ("weight", .integer 2)]])])).distinct
  have hleft : (project p).run {} "$project" (docs.map object) = .ok [object left] := rfl
  obtain ⟨-, out, hout, hagain⟩ := run_project_project {} "$project" hp hplain hdocs
  have hsame : out.map object = [object left] := Except.ok.inj (hout.symm.trans hleft)
  rw [hsame] at hagain
  exact ⟨⟨hp, hplain, hdocs⟩, hleft, hagain⟩

end Stage

end DocQuery
