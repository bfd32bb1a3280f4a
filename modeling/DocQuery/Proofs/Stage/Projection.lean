import DocQuery.Proofs.Expr.Kept
import DocQuery.Proofs.Path.Remove
import DocQuery.Proofs.Stage.Field
import DocQuery.Proofs.Stage.WellFormed

/-! What a projection does with the parts of a document. One that keeps some fields sees nothing beside them, and one
    that drops fields does not see what it drops. One that starts from the whole document leaves what its computed
    fields and then its removals leave, up to these removals. -/

namespace DocQuery

open Checked Value

/-- Neither of the paths begins the other. -/
def Path.Beside (p q : Path) : Prop := ¬p <+: q ∧ ¬q <+: p

instance : DecidableRel Path.Beside := fun p q => inferInstanceAs (Decidable (¬p <+: q ∧ ¬q <+: p))

namespace Projection

/-- The computed fields, in their order. -/
def computed (p : Projection) : Computed := computedAmong p.fields

/-- The paths of the fields that are dropped, in their order. -/
def excluded (p : Projection) : List Path := (p.fields.filter (·.2.isDrop)).map (·.1)

variable {p : Projection} {f : Path × Action} {fields : List (Path × Action)} {paths : List Path} {path q : Path}
  {source doc a b : Document}

theorem mem_excluded : q ∈ p.excluded ↔ ∃ f ∈ p.fields, f.2.isDrop ∧ f.1 = q := by
  simp only [excluded, List.mem_map, List.mem_filter, and_assoc]

/-! ### What is hidden -/

theorem start_remove (hid : p.dropsId ∨ q.head? ≠ some "_id") : p.start (q.remove source) = p.start source := by
  unfold start
  split
  · rfl
  · next hkept =>
    have hhead := hid.resolve_left hkept
    cases q with
    | nil => rfl
    | cons segment rest => rw [Path.get?_remove_of_ne fun h => hhead (congrArg some h)]

theorem addField_remove (hf : f.2.isKeep ∧ f.1.Beside q ∨ f.2.isDrop) :
    addField (q.remove source) doc f = addField source doc f := by
  obtain ⟨path, action⟩ := f
  rcases hf with ⟨hkeep, hbeside⟩ | hdrop
  · cases action with
    | keep => rw [addField, addField, Path.copy_remove hbeside.1 hbeside.2]
    | _ => exact Bool.noConfusion hkeep
  · cases action with
    | drop => rfl
    | _ => exact Bool.noConfusion hdrop

/-- Dropping fields is to remove them. -/
theorem foldlM_changeField_of_drops (hdrop : ∀ f ∈ fields, f.2.isDrop) (source doc : Document) :
    fields.foldlM (changeField source) doc = .ok (Path.removeAll (fields.map (·.1)) doc) := by
  induction fields generalizing doc with
  | nil => rfl
  | cons f rest ih =>
    obtain ⟨hf, hrest⟩ := List.forall_mem_cons.mp hdrop
    obtain ⟨path, action⟩ := f
    cases action with
    | drop => exact ih hrest (path.remove doc)
    | _ => exact Bool.noConfusion hf

theorem isInclusion_of_drops (hdrop : ∀ f ∈ p.fields, f.2.isDrop) : p.isInclusion = false := by
  have hnone : ∀ {test : Action → Bool}, (∀ action, action.isDrop → test action = false) →
      p.fields.any (fun f => test f.2) = false := fun htest =>
    List.any_eq_false.mpr fun f hf => Bool.eq_false_iff.mp (htest f.2 (hdrop f hf))
  rw [isInclusion, keepsSome, hnone, hnone]
  · rfl
  · intro action h
    cases action with
    | drop => rfl
    | _ => exact Bool.noConfusion h
  · intro action h
    cases action with
    | drop => rfl
    | _ => exact Bool.noConfusion h

/-- A projection does not tell what it hides: what lies beside all fields that it keeps, or what it drops, may as well
    not be there. -/
theorem applyTo_remove (p : Projection) (doc : Document) (q : Path) :
    (keepsSome p.fields → (∀ f ∈ p.fields, f.2.isKeep ∧ f.1.Beside q ∨ f.1 = idPath ∧ f.2.isDrop) →
      (p.dropsId ∨ q.head? ≠ some "_id") → p.applyTo (q.remove doc) = p.applyTo doc) ∧
    ((∀ f ∈ p.fields, f.2.isDrop) → q ∈ p.excluded → (object doc).Distinct →
      p.applyTo (q.remove doc) = p.applyTo doc) := by
  constructor
  · intro hsome hfields hid
    have hmode : p.isInclusion := by rw [isInclusion, hsome, Bool.true_or]
    rw [applyTo, applyTo, if_pos hmode, if_pos hmode, start_remove hid]
    exact foldlM_congr fun f hf target => addField_remove ((hfields f hf).imp id And.right)
  · intro hdrop hq hdoc
    have hall : p.excluded = p.fields.map (·.1) := by rw [excluded, List.filter_eq_self.mpr hdrop]
    rw [applyTo, applyTo, isInclusion_of_drops hdrop, if_neg Bool.false_ne_true, if_neg Bool.false_ne_true,
      foldlM_changeField_of_drops hdrop, foldlM_changeField_of_drops hdrop, ← hall, Path.removeAll_remove hq hdoc]

/-- A profile that shows the name, and one that hides the key of a token. -/
theorem applyTo_remove_profile :
    let shown : Projection := ⟨[(["name"], .keep), (["token", "kind"], .keep), (["_id"], .drop)]⟩
    let hidden : Projection := ⟨[(["token", "key"], .drop), (["note"], .drop)]⟩
    let q : Path := ["token", "key"]
    let doc : Document := [("_id", .int 7), ("name", .string "Ada"),
      ("token", .object [("key", .int 1), ("kind", .string "card")])]
    (keepsSome shown.fields ∧ (∀ f ∈ shown.fields, f.2.isKeep ∧ f.1.Beside q ∨ f.1 = idPath ∧ f.2.isDrop) ∧
      shown.dropsId ∧ shown.applyTo (q.remove doc) = shown.applyTo doc) ∧
    (∀ f ∈ hidden.fields, f.2.isDrop) ∧ q ∈ hidden.excluded ∧ (object doc).Distinct ∧
      hidden.applyTo (q.remove doc) = hidden.applyTo doc := by
  intro shown hidden q doc
  have hsome : keepsSome shown.fields := rfl
  have hshown : ∀ f ∈ shown.fields, f.2.isKeep ∧ f.1.Beside q ∨ f.1 = idPath ∧ f.2.isDrop := by decide
  have hid : shown.dropsId := rfl
  have hhidden : ∀ f ∈ hidden.fields, f.2.isDrop := by decide
  have hq : q ∈ hidden.excluded := List.mem_cons_self
  have hdoc : (object doc).Distinct := (wellFormed_ofJson (.object [("_id", .integer 7), ("name", .string "Ada"),
    ("token", .object [("key", .integer 1), ("kind", .string "card")])])).distinct
  exact ⟨⟨hsome, hshown, hid, (applyTo_remove shown doc q).1 hsome hshown (.inl hid)⟩, hhidden, hq, hdoc,
    (applyTo_remove hidden doc q).2 hhidden hq hdoc⟩

/-! ### Writing, then removing -/

/-- The documents are the same but for what the paths name. -/
structure SameUpTo (paths : List Path) (a b : Document) : Prop where
  left : (object a).Distinct
  right : (object b).Distinct
  same : Path.removeAll paths a = Path.removeAll paths b

theorem SameUpTo.remove (h : SameUpTo paths a b) (hq : q ∈ paths) : SameUpTo paths (q.remove a) b :=
  ⟨Path.distinct_remove q h.left, h.right, (Path.removeAll_remove hq h.left).trans h.same⟩

theorem distinct_assign {v : Value} (path : Path) (hv : v.IfAny Distinct) (h : (object doc).Distinct) :
    (object (assign path v doc)).Distinct := by
  unfold assign
  split
  · exact Path.distinct_remove path h
  · next hmissing => exact Path.distinct_set path (hv.of_not_missing (Bool.eq_false_iff.mpr hmissing)) h

theorem SameUpTo.assign {v : Value} (h : SameUpTo paths a b) (path : Path) (hv : v.IfAny Distinct) :
    SameUpTo paths (assign path v a) (assign path v b) := by
  refine ⟨distinct_assign path hv h.left, distinct_assign path hv h.right, ?_⟩
  unfold DocQuery.assign
  split
  · rw [Path.remove_removeAll path paths h.left, Path.remove_removeAll path paths h.right, h.same]
  · next hmissing =>
    have hv := hv.of_not_missing (Bool.eq_false_iff.mpr hmissing)
    rw [← Path.removeAll_set_removeAll path hv (List.Subset.refl paths) h.left,
      ← Path.removeAll_set_removeAll path hv (List.Subset.refl paths) h.right, h.same]

/-- A projection that starts from the whole document leaves what its computed fields leave, but for what it drops. -/
theorem related_applyTo (hmode : p.isInclusion = false) (hp : ∀ f ∈ p.fields, f.2.Computes Distinct)
    (hsource : (object source).Distinct) :
    Related (SameUpTo p.excluded) (fun _ => True) (p.applyTo source) (p.computed.applyTo source) := by
  rw [applyTo, hmode, if_neg Bool.false_ne_true, Computed.applyTo, computed, computedAmong,
    List.foldlM_filterMap]
  refine .folds ⟨hsource, hsource, rfl⟩ fun f hf a b h => ?_
  obtain ⟨path, action⟩ := f
  cases action with
  | keep => exact .ok h
  | drop => exact .ok (h.remove (mem_excluded.mpr ⟨_, hf, rfl, rfl⟩))
  | compute e =>
    exact .of_yields (yields_ifAny_on Distinct.kept (.inr (hp _ hf)) (.inr hsource)) fun v hv => .ok (h.assign path hv)

theorem map_removeAll_applyTo (hmode : p.isInclusion = false) (hp : ∀ f ∈ p.fields, f.2.Computes Distinct)
    (hsource : (object source).Distinct) :
    (p.computed.applyTo source).map (Path.removeAll p.excluded) = (p.applyTo source).map (Path.removeAll p.excluded) :=
  ((related_applyTo hmode hp hsource).map_eq fun _ _ h => h.same).symm

/-! ### What stays removed -/

theorem distinct_changeField (hf : f.2.Computes Distinct) (hsource : (object source).Distinct)
    (h : (object doc).Distinct) :
    Yields (fun doc => (object doc).Distinct) (fun _ => True) (changeField source doc f) := by
  obtain ⟨path, action⟩ := f
  cases action with
  | keep => exact h
  | drop => exact Path.distinct_remove path h
  | compute e =>
    exact (yields_ifAny_on Distinct.kept (.inr hf) (.inr hsource)).bind fun v hv => distinct_assign path hv h

theorem distinct_applyTo (hmode : p.isInclusion = false) (hp : ∀ f ∈ p.fields, f.2.Computes Distinct)
    (hsource : (object source).Distinct) :
    Yields (fun doc => (object doc).Distinct) (fun _ => True) (p.applyTo source) := by
  rw [applyTo, hmode, if_neg Bool.false_ne_true]
  exact .foldlM hsource fun f hf _ h => distinct_changeField (hp f hf) hsource h

/-- Removing what the path names changes nothing. -/
structure Lacks (path : Path) (doc : Document) : Prop where
  distinct : (object doc).Distinct
  same : path.remove doc = doc

theorem Lacks.changeField (h : Lacks q doc) (hf : f.2.Computes Distinct) (hsource : (object source).Distinct)
    (hbeside : f.2.isCompute → q.Beside f.1) : Yields (Lacks q) (fun _ => True) (changeField source doc f) := by
  obtain ⟨path, action⟩ := f
  have hremove : Lacks q (path.remove doc) :=
    ⟨Path.distinct_remove path h.distinct, by rw [Path.remove_comm q path h.distinct, h.same]⟩
  cases action with
  | keep => exact h
  | drop => exact hremove
  | compute e =>
    obtain ⟨hq, hpath⟩ := hbeside rfl
    refine (yields_ifAny_on Distinct.kept (.inr hf) (.inr hsource)).bind fun v hv => ?_
    refine ⟨distinct_assign path hv h.distinct, ?_⟩
    unfold assign
    split
    · exact hremove.same
    · rw [← Path.set_remove hpath hq, h.same]

/-- No field is computed behind a dropped one whose path it begins or continues. -/
def ComputesApart (p : Projection) : Prop := p.fields.Pairwise fun f g => f.2.isDrop → g.2.isCompute → f.1.Beside g.1

instance (p : Projection) : Decidable p.ComputesApart := inferInstanceAs (Decidable (p.fields.Pairwise _))

/-- What is dropped stays removed if nothing is computed behind it that begins or continues its path. -/
theorem yields_lacks (hmode : p.isInclusion = false) (hp : ∀ f ∈ p.fields, f.2.Computes Distinct)
    (hapart : p.ComputesApart) (hsource : (object source).Distinct) (hq : q ∈ p.excluded) :
    Yields (Lacks q) (fun _ => True) (p.applyTo source) := by
  obtain ⟨f, hf, hdrop, rfl⟩ := mem_excluded.mp hq
  obtain ⟨before, after, hfields⟩ := List.append_of_mem hf
  unfold ComputesApart at hapart
  rw [hfields] at hp hapart
  obtain ⟨hbefore, hrest⟩ := List.forall_mem_append.mp hp
  obtain ⟨hhere, hafter⟩ := List.forall_mem_cons.mp hrest
  obtain ⟨-, hbehind, -⟩ := List.pairwise_append.mp hapart
  obtain ⟨hbeside, -⟩ := List.pairwise_cons.mp hbehind
  rw [applyTo, hmode, if_neg Bool.false_ne_true, hfields, List.foldlM_append]
  refine Yields.bind (.foldlM hsource fun g hg _ h => distinct_changeField (hbefore g hg) hsource h) fun doc hdoc => ?_
  rw [List.foldlM_cons]
  -- From its own place on, the path is missing: it is removed there, and what follows writes beside it.
  have hdropped : Yields (Lacks f.1) (fun _ => True) (changeField source doc f) := by
    obtain ⟨path, action⟩ := f
    cases action with
    | drop => exact ⟨Path.distinct_remove path hdoc, Path.remove_remove path hdoc⟩
    | _ => exact Bool.noConfusion hdrop
  exact hdropped.bind fun doc hlacks =>
    .foldlM hlacks fun g hg _ h => h.changeField (hafter g hg) hsource (hbeside g hg hdrop)

/-! ### Two stages instead -/

theorem ofValue_eq_ok {spec : Value} (h : ofValue spec = .ok p) :
    ∃ fields, spec = .object fields ∧ leafFieldsOf "$project" Action.ofValue [] fields = .ok p.fields := by
  cases spec with
  | object spec =>
    refine ⟨spec, rfl, ?_⟩
    rw [ofValue] at h
    split at h
    · cases h
    · obtain ⟨fields, hfields, hp⟩ := bind_eq_ok.mp h
      dsimp only at hp
      split at hp
      · split at hp
        · cases hp
        · cases hp
          exact hfields
      · cases hp
        exact hfields
  | _ => cases h

theorem exists_unset (hpaths : ∀ path ∈ paths, IsFieldPath path) (hsome : paths ≠ []) :
    ∃ removed, Stage.unsetOf removed = .ok paths := by
  choose! name hname using fun path hpath => (hpaths path hpath).exists_checked "$unset"
  have hread : Stage.fieldNamesOf (.array ((paths.map name).map .string)) = .ok (paths.map name) :=
    mapM_eq_ok.mpr (List.forall₂_map_left_iff.mpr (List.forall₂_same.mpr fun _ _ => rfl))
  refine ⟨_, bind_eq_ok.mpr ⟨_, hread, ?_⟩⟩
  rw [List.isEmpty_map, if_neg (mt List.isEmpty_iff.mp hsome)]
  exact mapM_eq_ok.mpr (List.forall₂_map_left_iff.mpr (List.forall₂_same.mpr hname))

/-- What a projection computes and what it drops can be given to two stages. -/
theorem exists_stages {spec : Value} (hp : ofValue spec = .ok p) (hcomputed : p.computed ≠ [])
    (hexcluded : p.excluded ≠ []) : (∃ added, Computed.ofValue "$addFields" added = .ok p.computed) ∧
      ∃ removed, Stage.unsetOf removed = .ok p.excluded := by
  obtain ⟨spec, rfl, hfields⟩ := ofValue_eq_ok hp
  have hparts := leafFieldsOf_computedParts "$addFields" spec hfields
  constructor
  · refine ⟨.object (computedParts spec), ?_⟩
    have hsome : ¬(computedParts spec).isEmpty := fun hempty => hcomputed <| by
      rw [List.isEmpty_iff.mp hempty] at hparts
      exact (Except.ok.inj hparts).symm
    rw [Computed.ofValue, if_neg hsome, hparts, computed]
  · refine exists_unset (fun path hpath => ?_) hexcluded
    obtain ⟨f, hf, -, rfl⟩ := mem_excluded.mp hpath
    exact (yields_fieldPaths spec (.inl rfl)).of_eq_ok hfields f hf

end Projection

end DocQuery
