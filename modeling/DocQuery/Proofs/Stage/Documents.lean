import DocQuery.Proofs.Filter.Faults
import DocQuery.Proofs.Stage.WellFormed

/-! Stages make documents of documents. A stage in which every expression is well formed leaves nothing but
    well-formed objects, and it does not report that something is no document. -/

namespace DocQuery

open Checked Value

variable {docs : List Value} {doc source : Document} {v document : Value}

/-! ### Single documents -/

theorem yields_expectDocument {stage : String} (h : v.IsDocument) :
    Yields (Fields.Proper WellFormed) (·.isNotDocument = false) (expectDocument stage v) := by
  obtain ⟨fields, rfl, hfields⟩ := h.exists_fields
  exact hfields

theorem proper_assign {path : Path} (hv : v.WellFormedIfAny) (hdoc : Fields.Proper WellFormed doc) :
    Fields.Proper WellFormed (assign path v doc) := by
  unfold assign
  split
  · exact Path.proper_remove path hdoc
  · next hmissing => exact Path.proper_set path (hv.of_not_missing (Bool.eq_false_iff.mpr hmissing)) hdoc

theorem proper_removeAll : ∀ (paths : List Path) {doc : Document}, Fields.Proper WellFormed doc →
    Fields.Proper WellFormed (paths.foldl (fun doc path => path.remove doc) doc)
  | [], _, hdoc => hdoc
  | path :: rest, _, hdoc => proper_removeAll rest (Path.proper_remove path hdoc)

theorem Computed.yields_applyTo {computed : Computed} (hcomputed : ∀ f ∈ computed, f.2.WellFormed)
    (hsource : Fields.Proper WellFormed source) :
    Yields (Fields.Proper WellFormed) (·.isNotDocument = false) (computed.applyTo source) :=
  .foldlM hsource fun f hf _ hdoc =>
    (yields_evaluateOn (hcomputed f hf) (.of_proper hsource)).bind fun _ hv => proper_assign hv hdoc

namespace Projection

variable {p : Projection} {f : Path × Action}

theorem proper_start (hsource : Fields.Proper WellFormed source) : Fields.Proper WellFormed (p.start source) := by
  unfold start
  split
  · exact .nil
  · cases hid : source.get? "_id" with
    | none => exact .nil
    | some id => exact ⟨List.nodup_singleton _, List.forall_mem_singleton.mpr (hsource.get? hid)⟩

theorem yields_addField (hf : f.2.WellFormed) (hsource : Fields.Proper WellFormed source)
    (hdoc : Fields.Proper WellFormed doc) :
    Yields (Fields.Proper WellFormed) (·.isNotDocument = false) (addField source doc f) := by
  obtain ⟨path, action⟩ := f
  cases action with
  | keep =>
    show Fields.Proper WellFormed (if path = idPath then doc else path.copy source doc)
    split
    · exact hdoc
    · exact Path.proper_copy path hsource hdoc
  | drop => exact hdoc
  | compute e =>
    refine (yields_evaluateOn hf (.of_proper hsource)).bind fun v hv => ?_
    show Fields.Proper WellFormed (if v.isMissing then doc else path.set v doc)
    split
    · exact hdoc
    · next hmissing => exact Path.proper_set path (hv.of_not_missing (Bool.eq_false_iff.mpr hmissing)) hdoc

theorem yields_changeField (hf : f.2.WellFormed) (hsource : Fields.Proper WellFormed source)
    (hdoc : Fields.Proper WellFormed doc) :
    Yields (Fields.Proper WellFormed) (·.isNotDocument = false) (changeField source doc f) := by
  obtain ⟨path, action⟩ := f
  cases action with
  | keep => exact hdoc
  | drop => exact Path.proper_remove path hdoc
  | compute e => exact (yields_evaluateOn hf (.of_proper hsource)).bind fun v hv => proper_assign hv hdoc

theorem yields_applyTo (hp : ∀ f ∈ p.fields, f.2.WellFormed) (hsource : Fields.Proper WellFormed source) :
    Yields (Fields.Proper WellFormed) (·.isNotDocument = false) (p.applyTo source) := by
  unfold applyTo
  split
  · exact .foldlM (proper_start hsource) fun f hf _ hdoc => yields_addField (hp f hf) hsource hdoc
  · exact .foldlM hsource fun f hf _ hdoc => yields_changeField (hp f hf) hsource hdoc

end Projection

namespace Unwinding

variable {u : Unwinding}

theorem isDocument_withIndex {index : Value} (hindex : index.WellFormed) (hdoc : Fields.Proper WellFormed doc) :
    (u.withIndex index doc).IsDocument := by
  unfold withIndex
  split
  · exact isDocument_object (Path.proper_set _ hindex hdoc)
  · exact isDocument_object hdoc

theorem isDocument_of_mem_applyTo (hdoc : Fields.Proper WellFormed doc) : AreDocuments (u.applyTo doc) := by
  have hnull : ∀ {doc : Document}, Fields.Proper WellFormed doc → (u.withIndex .null doc).IsDocument :=
    isDocument_withIndex (.scalar rfl)
  -- The document takes each item in turn; where there are no items it stays as it is, loses the field, or is dropped.
  unfold applyTo
  split
  · split
    · exact List.forall_mem_singleton.mpr (hnull (Path.proper_remove _ hdoc))
    · exact List.forall_mem_nil _
  · next items _ hget =>
    intro d hd
    obtain ⟨⟨item, i⟩, hitem, rfl⟩ := List.mem_map.mp hd
    have hitems : (Value.array items).WellFormed := Path.wellFormed_get? _ (.of_proper hdoc) hget
    have hitem : item.WellFormed := hitems.items item (List.fst_mem_of_mem_zipIdx hitem)
    exact isDocument_withIndex (wellFormed_ofCount i) (Path.proper_set _ hitem hdoc)
  · split
    · exact List.forall_mem_singleton.mpr (hnull hdoc)
    · exact List.forall_mem_nil _
  · split
    · exact List.forall_mem_singleton.mpr (hnull hdoc)
    · exact List.forall_mem_nil _
  · exact List.forall_mem_singleton.mpr (hnull hdoc)

end Unwinding

/-! ### Groups -/

structure Group.WellFormed (group : Group) : Prop where
  id : group.id.WellFormed
  accumulators : ∀ a ∈ group.accumulators, a.WellFormed

namespace Grouping

variable {g : Grouping} {groups : List Group} {limit : Option Nat}

theorem yields_feed (hg : g.WellFormed) (hdocument : document.WellFormed) {accumulators : List Accumulator}
    (haccumulators : ∀ a ∈ accumulators, a.WellFormed) :
    Yields (fun accumulators => ∀ a ∈ accumulators, a.WellFormed) (·.isNotDocument = false)
      (g.feed document accumulators) := by
  refine .mapM fun pair hpair => ?_
  obtain ⟨hfield, ha⟩ := List.of_mem_zip hpair
  refine (yields_evaluateOn (hg.fields _ hfield).expression hdocument).bind fun v hv => ?_
  exact Accumulator.yields_add (haccumulators _ ha) hv

theorem yields_add (hg : g.WellFormed) (hdocument : document.WellFormed)
    (hgroups : ∀ group ∈ groups, group.WellFormed) :
    Yields (fun groups => ∀ group ∈ groups, group.WellFormed) (·.isNotDocument = false)
      (g.add limit groups document) := by
  unfold add
  refine (yields_evaluateOn hg.id hdocument).bind fun v hv => ?_
  extract_lets id key goOn
  split
  · next group hfind =>
    have hgroup := hgroups group (List.mem_of_find?_eq_some hfind)
    refine (yields_feed hg hdocument hgroup.accumulators).bind fun accumulators haccumulators => ?_
    intro other hother
    obtain ⟨old, hold, rfl⟩ := List.mem_map.mp hother
    split
    · exact ⟨(hgroups old hold).id, haccumulators⟩
    · exact hgroups old hold
  · have hnew : Yields (fun groups => ∀ group ∈ groups, group.WellFormed) (·.isNotDocument = false) (goOn ()) := by
      have hfresh : ∀ a ∈ g.fields.map (·.start), a.WellFormed := by
        intro a ha
        obtain ⟨f, hf, rfl⟩ := List.mem_map.mp ha
        exact (hg.fields f hf).start
      refine (yields_feed hg hdocument hfresh).bind fun accumulators haccumulators => ?_
      exact List.forall_mem_append.mpr ⟨hgroups, List.forall_mem_singleton.mpr ⟨hv.orNull, haccumulators⟩⟩
    split
    · split
      · exact rfl
      · exact hnew
    · exact hnew

theorem isDocument_document {group : Group} (h : group.WellFormed) : (g.document group).IsDocument := by
  refine isDocument_object (.ofList (List.forall_mem_cons.mpr ⟨h.id, fun pair hpair => ?_⟩))
  obtain ⟨⟨field, a⟩, hzip, rfl⟩ := List.mem_map.mp hpair
  exact Accumulator.wellFormed_result (h.accumulators a (List.of_mem_zip hzip).2)

theorem yields_applyTo (hg : g.WellFormed) (hdocs : AreDocuments docs) :
    Yields AreDocuments (·.isNotDocument = false) (g.applyTo limit docs) := by
  have hgroups : Yields (fun groups => ∀ group ∈ groups, group.WellFormed) (·.isNotDocument = false)
      (docs.foldlM (g.add limit) []) :=
    .foldlM (List.forall_mem_nil _) fun d hd _ hgroups => yields_add hg (hdocs d hd).2 hgroups
  refine hgroups.bind fun groups hgroups d hd => ?_
  obtain ⟨group, hgroup, rfl⟩ := List.mem_map.mp hd
  exact isDocument_document (hgroups group hgroup)

theorem wellFormed_counting {id : Value} (h : id.WellFormed) : (counting id).WellFormed :=
  ⟨h, List.forall_mem_singleton.mpr ⟨trivial, .scalar rfl⟩⟩

end Grouping

/-! ### Stages -/

namespace Stage

variable {setting : Setting} {name : String}

/-- A fault that does not ask for a document, unless it is the search for words that reports it. -/
def Allows (setting : Setting) (f : Fault) : Prop :=
  f.isNotDocument → ∃ search, setting.search = some search ∧ ∃ d wanted, search d wanted = .error f

theorem allows_of_isNotDocument {f : Fault} (h : f.isNotDocument = false) : Allows setting f := fun hf => by
  rw [h] at hf
  exact Bool.noConfusion hf

theorem yields_keep {α : Type} {F : Fault → Prop} {test : α → Checked Bool} : ∀ (xs : List α),
    (∀ x ∈ xs, FailsWith F (test x)) → Yields (fun ys => ∀ y ∈ ys, y ∈ xs) F (keep test xs)
  | [], _ => List.forall_mem_nil _
  | x :: rest, h => by
    obtain ⟨hx, hrest⟩ := List.forall_mem_cons.mp h
    refine hx.bind fun holds _ => ?_
    split
    · refine (yields_keep rest hrest).bind fun ys hys => List.forall_mem_cons.mpr ⟨List.mem_cons_self, fun y hy => ?_⟩
      exact List.mem_cons_of_mem _ (hys y hy)
    · exact (yields_keep rest hrest).mono (fun ys hys y hy => List.mem_cons_of_mem _ (hys y hy)) fun _ h => h

theorem yields_each {f : Document → Checked Document}
    (hf : ∀ doc, Fields.Proper Value.WellFormed doc →
      Yields (Fields.Proper Value.WellFormed) (·.isNotDocument = false) (f doc))
    (hdocs : AreDocuments docs) :
    Yields AreDocuments (·.isNotDocument = false) (each name f docs) :=
  .mapM fun d hd => (yields_expectDocument (hdocs d hd)).bind fun doc hdoc =>
    (hf doc hdoc).bind fun _ hresult => isDocument_object hresult

theorem yields_newRoot {expression : Value} (he : expression.WellFormed) (hdocument : document.WellFormed) :
    Yields IsDocument (·.isNotDocument = false) (newRoot expression document) := by
  refine (yields_evaluateOn he hdocument).bind fun v hv => ?_
  split
  · exact ⟨rfl, hv.of_not_missing rfl⟩
  · exact rfl

/-- A stage leaves documents, and no fault of its own says that something is no document. -/
theorem yields_run {stage : Stage} (hstage : stage.WellFormed) (hdocs : AreDocuments docs) :
    Yields AreDocuments (Allows setting) (stage.run setting name docs) := by
  have hallows : ∀ {x : Checked (List Value)},
      Yields AreDocuments (·.isNotDocument = false) x →
        Yields AreDocuments (Allows setting) x :=
    fun h => h.weaken fun _ => allows_of_isNotDocument
  cases stage with
  | filter query =>
    -- A filter fails only with the faults that it keeps and with those of the search.
    have hsearch : ∀ s, setting.search = some s → ∀ d wanted, FailsWith (Allows setting) (s d wanted) := by
      intro s hs d wanted
      cases h : s d wanted with
      | ok b => trivial
      | error fault => exact fun _ => ⟨s, hs, d, wanted, h⟩
    have hfilter : query.filter.FaultsAmong setting.search (Allows setting) :=
      query.filter_eq ▸ Filter.faultsAmong_ofValue ⟨fun _ => allows_of_isNotDocument, hsearch⟩ query.source
    refine (yields_keep docs fun d _ => hfilter.failsWith_test d).mono (fun kept hkept d hd => ?_) fun _ h => h
    exact hdocs d (hkept d hd)
  | project projection => exact hallows (yields_each (fun _ hdoc => Projection.yields_applyTo hstage hdoc) hdocs)
  | addFields computed => exact hallows (yields_each (fun _ hdoc => Computed.yields_applyTo hstage hdoc) hdocs)
  | unset paths =>
    exact hallows (yields_each (fun _ hdoc => proper_removeAll paths hdoc) hdocs)
  | group grouping => exact hallows (Grouping.yields_applyTo hstage hdocs)
  | sort keys => exact fun d hd => hdocs d (List.mem_mergeSort.mp hd)
  | limit n => exact fun d hd => hdocs d (List.mem_of_mem_take hd)
  | skip n => exact fun d hd => hdocs d (List.mem_of_mem_drop hd)
  | count field =>
    show ∀ d ∈ (if docs.isEmpty then [] else _ : List Value), d.IsDocument
    split
    · exact List.forall_mem_nil _
    · refine List.forall_mem_singleton.mpr (isDocument_object ⟨List.nodup_singleton _, ?_⟩)
      exact List.forall_mem_singleton.mpr (wellFormed_ofCount docs.length)
  | unwind unwinding =>
    have hunwound : Yields (fun lists => ∀ docs ∈ lists, AreDocuments docs) (·.isNotDocument = false)
        (docs.mapM fun v => do return unwinding.applyTo (← expectDocument name v)) :=
      .mapM fun d hd => (yields_expectDocument (hdocs d hd)).bind fun doc hdoc =>
        Unwinding.isDocument_of_mem_applyTo hdoc
    refine hallows (hunwound.bind fun lists hlists d hd => ?_)
    obtain ⟨docs, hdocs, hd⟩ := List.mem_flatten.mp hd
    exact hlists docs hdocs d hd
  | replaceRoot expression => exact hallows (.mapM fun d hd => yields_newRoot hstage (hdocs d hd).2)
  | sortByCount expression =>
    refine hallows ((Grouping.yields_applyTo (Grouping.wellFormed_counting hstage) hdocs).bind fun groups hgroups => ?_)
    exact fun d hd => hgroups d (List.mem_mergeSort.mp hd)

end Stage

end DocQuery
