import Mathlib.Data.List.Induction
import DocQuery.Proofs.Checked
import DocQuery.Proofs.Fields
import DocQuery.Stage.Group

/-! Grouping by definition. One pass over the documents, which adds each to the group of its key, comes to
    the same as taking for each key, in the order of first occurrence, the documents that have it. The pass
    keeps every group at the totals of the documents so far. -/

namespace DocQuery

open Checked

/-! ### Totals -/

namespace GroupField

variable {f : GroupField} {docs before after : List Value} {d : Value} {a : Accumulator}

/-- The accumulator after the values of the expression on the documents. -/
def total (f : GroupField) (docs : List Value) : Checked Accumulator :=
  docs.foldlM (fun a d => do a.add (← Expr.evaluateOn f.expression d)) f.start

theorem total_concat (h : f.total docs = .ok a) :
    f.total (docs ++ [d]) = Expr.evaluateOn f.expression d >>= fun v => a.add v := by
  rw [total, foldlM_concat]
  show f.total docs >>= _ = _
  rw [h]
  rfl

/-- A total that succeeds has taken every document. -/
theorem exists_of_total (h : f.total (before ++ d :: after) = .ok a) :
    ∃ b v c, f.total before = .ok b ∧ Expr.evaluateOn f.expression d = .ok v ∧ b.add v = .ok c := by
  rw [total, List.foldlM_append] at h
  obtain ⟨b, hb, h⟩ := bind_eq_ok.mp h
  rw [List.foldlM_cons] at h
  obtain ⟨c, hc, -⟩ := bind_eq_ok.mp h
  obtain ⟨v, hv, hadd⟩ := bind_eq_ok.mp hc
  exact ⟨b, v, c, hb, hv, hadd⟩

end GroupField

namespace Group

variable {key : String} {accumulators : List Accumulator} {group : Group}

/-- Replaces the accumulators if the group has that key. -/
def put (key : String) (accumulators : List Accumulator) (group : Group) : Group :=
  if group.key = key then { group with accumulators } else group

@[simp] theorem put_key : (group.put key accumulators).key = group.key := by
  unfold put
  split <;> rfl

@[simp] theorem put_id : (group.put key accumulators).id = group.id := by
  unfold put
  split <;> rfl

theorem put_accumulators (h : group.key = key) : (group.put key accumulators).accumulators = accumulators := by
  rw [put, if_pos h]

theorem put_of_ne (h : group.key ≠ key) : group.put key accumulators = group := if_neg h

end Group

namespace Grouping

variable {g : Grouping} {groups groups' : List Group} {docs ids : List Value} {d id : Value} {key : String}
  {accumulators : List Accumulator}

/-! ### The definition -/

/-- The `_id` value of a document. -/
def idOf (g : Grouping) (doc : Value) : Checked Value := return (← Expr.evaluateOn g.id doc).orNull

/-- The documents with that key. -/
def members (g : Grouping) (key : String) (docs : List Value) : List Value :=
  docs.filter fun d => (g.idOf d).toOption.map Value.key = some key

/-- Grouping by definition: for each key the first `_id` value with that key, and for each field the result
    of a fresh accumulator after the documents with that key. -/
def declared (g : Grouping) (docs : List Value) : Checked (List Value) := do
  let ids ← docs.mapM g.idOf
  (ids.map Value.key).eraseDups.mapM fun key => do
    let totals ← g.fields.mapM fun f => do return (f.name, (← f.total (g.members key docs)).result)
    return .object (("_id", (ids.find? (·.key = key)).getD .null) :: totals)

/-- Some evaluation fails on a document, or an accumulator does not take its value. -/
inductive Fails (g : Grouping) (docs : List Value) : Prop
  | id {d : Value} {e : Fault} : d ∈ docs → Expr.evaluateOn g.id d = .error e → Fails g docs
  | field {f : GroupField} {d : Value} {e : Fault} :
    f ∈ g.fields → d ∈ docs → Expr.evaluateOn f.expression d = .error e → Fails g docs
  | accumulate {f : GroupField} {before after : List Value} {d id v : Value} {a : Accumulator} {e : Fault} :
    f ∈ g.fields → docs = before ++ d :: after → g.idOf d = .ok id →
      f.total (g.members id.key before) = .ok a → Expr.evaluateOn f.expression d = .ok v → a.add v = .error e →
        Fails g docs

theorem Fails.concat (h : g.Fails docs) (d : Value) : g.Fails (docs ++ [d]) := by
  cases h with
  | id hd he => exact .id (List.mem_append_left _ hd) he
  | field hf hd he => exact .field hf (List.mem_append_left _ hd) he
  | @accumulate _ before after x _ _ _ _ hf hdocs hid ha hv he =>
    have hdocs' : docs ++ [d] = before ++ x :: (after ++ [d]) := by rw [hdocs, List.append_assoc, List.cons_append]
    exact .accumulate hf hdocs' hid ha hv he

theorem members_append (key : String) (docs rest : List Value) :
    g.members key (docs ++ rest) = g.members key docs ++ g.members key rest := List.filter_append ..

theorem members_cons_of_key (h : g.idOf d = .ok id) : g.members id.key (d :: docs) = d :: g.members id.key docs :=
  List.filter_cons_of_pos (by simp [h, Except.toOption])

theorem members_singleton_of_ne (h : g.idOf d = .ok id) (hne : key ≠ id.key) : g.members key [d] = [] :=
  List.filter_cons_of_neg (by simp [h, Except.toOption, hne.symm])

/-! ### One step -/

/-- What adding a document with this `_id` value comes to: the group of its key, or a new one, takes its values. -/
inductive Step (g : Grouping) (groups : List Group) (d id : Value) : List Group → Prop
  | again {group : Group} {accumulators : List Accumulator} :
    group ∈ groups → group.key = id.key → g.feed d group.accumulators = .ok accumulators →
      Step g groups d id (groups.map (Group.put id.key accumulators))
  | first {accumulators : List Accumulator} :
    id.key ∉ groups.map Group.key → g.feed d (g.fields.map (·.start)) = .ok accumulators →
      Step g groups d id (groups ++ [⟨id, id.key, accumulators⟩])

theorem idOf_eq_ok : g.idOf d = .ok id ↔ ∃ v, Expr.evaluateOn g.id d = .ok v ∧ v.orNull = id := by
  rw [idOf, bind_eq_ok]
  exact exists_congr fun v => and_congr_right fun _ => Iff.of_eq (Except.ok.injEq ..)

theorem find?_key_eq_none : groups.find? (·.key = key) = none ↔ key ∉ groups.map Group.key := by
  simp [List.find?_eq_none]

theorem mem_of_find?_key {group : Group} (h : groups.find? (·.key = key) = some group) :
    group ∈ groups ∧ group.key = key :=
  ⟨List.mem_of_find?_eq_some h, by simpa using List.find?_some h⟩

theorem step_of_add {limit : Option Nat} (h : g.add limit groups d = .ok groups') :
    ∃ id, g.idOf d = .ok id ∧ g.Step groups d id groups' := by
  unfold add at h
  obtain ⟨v, hv, h⟩ := bind_eq_ok.mp h
  refine ⟨v.orNull, idOf_eq_ok.mpr ⟨v, hv, rfl⟩, ?_⟩
  dsimp only at h
  split at h
  · next group hfind =>
    obtain ⟨accumulators, hfeed, h⟩ := bind_eq_ok.mp h
    obtain ⟨hmem, hkey⟩ := mem_of_find?_key hfind
    cases h
    exact .again hmem hkey hfeed
  · next hfind =>
    have hnew : ∀ {x : Checked (List Group)},
        x = (do return groups ++ [⟨v.orNull, v.orNull.key, ← g.feed d (g.fields.map (·.start))⟩]) →
          x = .ok groups' → g.Step groups d v.orNull groups' := fun hx h => by
      rw [hx] at h
      obtain ⟨accumulators, hfeed, h⟩ := bind_eq_ok.mp h
      cases h
      exact .first (find?_key_eq_none.mp hfind) hfeed
    cases limit with
    | none => exact hnew rfl h
    | some limit =>
      dsimp only at h
      split at h
      · cases h
      · exact hnew rfl h

/-- Without a limit a document is added once the accumulators of its group take its values. -/
theorem exists_add_of_feed (hid : g.idOf d = .ok id)
    (hagain : ∀ group ∈ groups, group.key = id.key → ∃ fed, g.feed d group.accumulators = .ok fed)
    (hfirst : id.key ∉ groups.map Group.key → ∃ fed, g.feed d (g.fields.map (·.start)) = .ok fed) :
    ∃ groups', g.add none groups d = .ok groups' := by
  obtain ⟨v, hv, rfl⟩ := idOf_eq_ok.mp hid
  cases hfind : groups.find? (·.key = v.orNull.key) with
  | some group =>
    obtain ⟨hmem, hkey⟩ := mem_of_find?_key hfind
    obtain ⟨fed, hfed⟩ := hagain group hmem hkey
    simp only [add, hv, bind, Except.bind, hfind, hfed]
    exact ⟨_, rfl⟩
  | none =>
    obtain ⟨fed, hfed⟩ := hfirst (find?_key_eq_none.mp hfind)
    simp only [add, hv, bind, Except.bind, hfind, hfed]
    exact ⟨_, rfl⟩

/-- A step adds at most the key of its document, behind the others. -/
theorem Step.keys_eq (h : g.Step groups d id groups') :
    groups'.map Group.key = groups.map Group.key ++ if id.key ∈ groups.map Group.key then [] else [id.key] := by
  cases h with
  | again hmem hkey =>
    rw [if_pos (hkey ▸ List.mem_map_of_mem hmem), List.append_nil, List.map_map]
    exact List.map_congr_left fun _ _ => Group.put_key
  | first hnew =>
    rw [if_neg hnew, List.map_append]
    rfl

theorem feed_eq (h : g.fields.mapM (fun f => f.total docs) = .ok accumulators) :
    g.feed d accumulators = g.fields.mapM fun f => f.total (docs ++ [d]) := by
  rw [feed]
  revert h
  induction g.fields generalizing accumulators with
  | nil => exact fun _ => rfl
  | cons f fields ih =>
    intro h
    obtain ⟨a, rest, ha, hrest, rfl⟩ := List.forall₂_cons_left_iff.mp (mapM_eq_ok.mp h)
    rw [List.zip_cons_cons, List.mapM_cons, List.mapM_cons, ih (mapM_eq_ok.mpr hrest), GroupField.total_concat ha]

theorem total_start (g : Grouping) : g.fields.mapM (fun f => f.total []) = .ok (g.fields.map (·.start)) := by
  rw [mapM_eq_ok, List.forall₂_map_right_iff, List.forall₂_same]
  exact fun _ _ => rfl

/-! ### The whole pass -/

/-- The groups of these documents, whose `_id` values are `ids`. -/
structure Collected (g : Grouping) (docs ids : List Value) (groups : List Group) : Prop where
  ids_eq : docs.mapM g.idOf = .ok ids
  keys_eq : groups.map Group.key = (ids.map Value.key).eraseDups
  first_eq : ∀ group ∈ groups, ids.find? (·.key = group.key) = some group.id
  totals_eq : ∀ group ∈ groups, g.fields.mapM (fun f => f.total (g.members group.key docs)) = .ok group.accumulators

namespace Collected

theorem nil : g.Collected [] [] [] where
  ids_eq := rfl
  keys_eq := rfl
  first_eq _ h := nomatch h
  totals_eq _ h := nomatch h

theorem mem_keys (h : g.Collected docs ids groups) : key ∈ groups.map Group.key ↔ key ∈ ids.map Value.key := by
  rw [h.keys_eq]
  exact List.mem_eraseDups

theorem members_eq_nil (h : g.Collected docs ids groups) (hkey : key ∉ groups.map Group.key) :
    g.members key docs = [] := by
  refine List.filter_eq_nil_iff.mpr fun d hd hmem => hkey ?_
  obtain ⟨id, hid, hd⟩ := exists_mem_of_mapM h.ids_eq d hd
  have hidkey : id.key = key := by simpa [hd, Except.toOption] using hmem
  exact h.mem_keys.mpr (hidkey ▸ List.mem_map_of_mem hid)

theorem step (h : g.Collected docs ids groups) (hid : g.idOf d = .ok id) (hstep : g.Step groups d id groups') :
    g.Collected (docs ++ [d]) (ids ++ [id]) groups' := by
  have hfirst : ∀ group ∈ groups, (ids ++ [id]).find? (·.key = group.key) = some group.id := fun group hgroup => by
    rw [List.find?_append, h.first_eq group hgroup, Option.some_or]
  -- Groups of other keys do not see the document, and the group of its key gets it as the last one.
  have hother : ∀ group ∈ groups, group.key ≠ id.key →
      g.fields.mapM (fun f => f.total (g.members group.key (docs ++ [d]))) = .ok group.accumulators :=
    fun group hgroup hne => by
      rw [members_append, members_singleton_of_ne hid hne, List.append_nil]
      exact h.totals_eq group hgroup
  have hown : g.members id.key (docs ++ [d]) = g.members id.key docs ++ [d] := by
    rw [members_append, members_cons_of_key hid]
    rfl
  refine ⟨mapM_concat h.ids_eq hid, ?_, ?_, ?_⟩
  · rw [hstep.keys_eq, List.map_append, List.map_singleton, Fields.eraseDups_concat, h.keys_eq]
    simp only [List.mem_eraseDups]
  · -- The first `_id` of a key: an old group keeps its own, a new one takes that of the document.
    cases hstep with
    | again =>
      intro group hgroup
      obtain ⟨old, hold, rfl⟩ := List.mem_map.mp hgroup
      rw [Group.put_key, Group.put_id]
      exact hfirst old hold
    | first hnew =>
      intro group hgroup
      rcases List.mem_append.mp hgroup with hold | hlast
      · exact hfirst group hold
      · obtain rfl := List.mem_singleton.mp hlast
        have hnone : ids.find? (·.key = id.key) = none := by simpa [h.mem_keys] using hnew
        simp [List.find?_append, hnone]
  · -- The totals: the group of the key is fed, and all others stay.
    cases hstep with
    | @again group accumulators hmem hkey hfeed =>
      intro other hother'
      obtain ⟨old, hold, rfl⟩ := List.mem_map.mp hother'
      rw [Group.put_key]
      by_cases heq : old.key = id.key
      · rw [Group.put_accumulators heq, heq, hown, ← feed_eq (hkey ▸ h.totals_eq group hmem)]
        exact hfeed
      · rw [Group.put_of_ne heq]
        exact hother old hold heq
    | first hnew hfeed =>
      intro group hgroup
      rcases List.mem_append.mp hgroup with hold | hlast
      · exact hother group hold fun heq => hnew (heq ▸ List.mem_map_of_mem hold)
      · obtain rfl := List.mem_singleton.mp hlast
        rw [hown, h.members_eq_nil hnew, ← feed_eq (total_start g)]
        exact hfeed

/-- Every document has a group that its values have gone into. -/
theorem exists_group (h : g.Collected docs ids groups) (hd : d ∈ docs) :
    ∃ id, g.idOf d = .ok id ∧ ∃ group ∈ groups, group.key = id.key := by
  obtain ⟨id, hid, hdid⟩ := exists_mem_of_mapM h.ids_eq d hd
  exact ⟨id, hdid, List.mem_map.mp (h.mem_keys.mpr (List.mem_map_of_mem hid))⟩

theorem not_fails (h : g.Collected docs ids groups) : ¬g.Fails docs := by
  -- The values of a document are inside a total that has succeeded.
  have htotal : ∀ {f before d after id}, f ∈ g.fields → docs = before ++ d :: after → g.idOf d = .ok id →
      ∃ b v c, f.total (g.members id.key before) = .ok b ∧ Expr.evaluateOn f.expression d = .ok v ∧
        b.add v = .ok c :=
    fun {f before d after id} hf hdocs hid => by
      obtain ⟨id', hid', group, hgroup, hkey⟩ := h.exists_group (d := d) (by simp [hdocs])
      obtain rfl : id' = id := Except.ok.inj (hid'.symm.trans hid)
      obtain ⟨a, -, ha⟩ := exists_mem_of_mapM (h.totals_eq group hgroup) f hf
      rw [hkey, hdocs, members_append, members_cons_of_key hid] at ha
      exact GroupField.exists_of_total ha
  intro hfails
  cases hfails with
  | id hd he =>
    obtain ⟨id, -, hid⟩ := exists_mem_of_mapM h.ids_eq _ hd
    obtain ⟨v, hv, -⟩ := idOf_eq_ok.mp hid
    cases he.symm.trans hv
  | field hf hd he =>
    obtain ⟨before, after, hdocs⟩ := List.append_of_mem hd
    obtain ⟨id, hid, -⟩ := h.exists_group hd
    obtain ⟨b, v, c, -, hv, -⟩ := htotal hf hdocs hid
    cases he.symm.trans hv
  | accumulate hf hdocs hid ha hv he =>
    obtain ⟨b, v, c, hb, hv', hc⟩ := htotal hf hdocs hid
    cases hb.symm.trans ha
    cases hv'.symm.trans hv
    cases hc.symm.trans he

/-- Where nothing fails another document can be added. -/
theorem exists_add (h : g.Collected docs ids groups) (hfails : ¬g.Fails (docs ++ [d])) :
    ∃ groups', g.add none groups d = .ok groups' := by
  have hd : d ∈ docs ++ [d] := by simp
  obtain ⟨id, hid⟩ : ∃ id, g.idOf d = .ok id := by
    cases hv : Expr.evaluateOn g.id d with
    | error e => exact absurd (.id hd hv) hfails
    | ok v => exact ⟨v.orNull, idOf_eq_ok.mpr ⟨v, hv, rfl⟩⟩
  -- What the document is fed to is the total of the documents before it, so a failure would be a declared one.
  have hfeed : ∀ accumulators, g.fields.mapM (fun f => f.total (g.members id.key docs)) = .ok accumulators →
      ∃ fed, g.feed d accumulators = .ok fed := fun accumulators htotals => by
    rw [feed_eq htotals]
    refine exists_mapM_eq_ok fun f hf => ?_
    obtain ⟨a, -, ha⟩ := exists_mem_of_mapM htotals f hf
    rw [GroupField.total_concat ha]
    cases hv : Expr.evaluateOn f.expression d with
    | error e => exact absurd (.field hf hd hv) hfails
    | ok v =>
      cases hadd : a.add v with
      | error e => exact absurd (.accumulate hf rfl hid ha hv hadd) hfails
      | ok b => exact ⟨b, hadd⟩
  exact exists_add_of_feed hid (fun group hmem hkey => hfeed _ (hkey ▸ h.totals_eq group hmem))
    fun hnew => hfeed _ (h.members_eq_nil hnew ▸ total_start g)

end Collected

/-- After a pass the groups are those of its documents. -/
theorem collected_of_foldlM {limit : Option Nat} (h : docs.foldlM (g.add limit) [] = .ok groups) :
    ∃ ids, g.Collected docs ids groups := by
  -- Induction from the end: the last step meets the groups of all documents before it.
  induction docs using List.reverseRecOn generalizing groups with
  | nil =>
    cases h
    exact ⟨[], .nil⟩
  | append_singleton docs d ih =>
    rw [foldlM_concat] at h
    obtain ⟨before, hbefore, hadd⟩ := bind_eq_ok.mp h
    obtain ⟨ids, hids⟩ := ih hbefore
    obtain ⟨id, hid, hstep⟩ := step_of_add hadd
    exact ⟨_, hids.step hid hstep⟩

/-- Without a limit a pass succeeds where nothing fails. -/
theorem exists_foldlM (h : ¬g.Fails docs) : ∃ groups, docs.foldlM (g.add none) [] = .ok groups := by
  induction docs using List.reverseRecOn with
  | nil => exact ⟨[], rfl⟩
  | append_singleton docs d ih =>
    obtain ⟨groups, hgroups⟩ := ih fun hfails => h (hfails.concat d)
    obtain ⟨ids, hids⟩ := collected_of_foldlM hgroups
    obtain ⟨groups', hadd⟩ := hids.exists_add h
    exact ⟨groups', by rw [foldlM_concat, hgroups]; exact hadd⟩

/-! ### The output -/

theorem name_of_ofField {name : String} {v : Value} {f : GroupField} (h : GroupField.ofField (name, v) = .ok f) :
    f.name = name := by
  unfold GroupField.ofField at h
  obtain ⟨path, -, h⟩ := bind_eq_ok.mp h
  dsimp only at h
  split at h
  · cases h
  · split at h
    · split at h
      · obtain ⟨_, -, h⟩ := bind_eq_ok.mp h
        obtain ⟨_, -, h⟩ := bind_eq_ok.mp h
        cases h
        rfl
      · cases h
    · cases h

/-- The fields of a group are those of the specification other than `_id`. -/
theorem names_of_ofValue {spec : Document} (h : ofValue (.object spec) = .ok g) :
    g.fields.map (·.name) = (Fields.names spec).filter (· ≠ "_id") := by
  unfold ofValue at h
  dsimp only at h
  split at h
  · next id hid =>
    obtain ⟨_, -, h⟩ := bind_eq_ok.mp h
    obtain ⟨fields, hfields, h⟩ := bind_eq_ok.mp h
    cases h
    have hnames : ∀ {pairs : List (String × Value)} {fields : List GroupField},
        List.Forall₂ (fun p f => GroupField.ofField p = .ok f) pairs fields →
          fields.map (·.name) = pairs.map Prod.fst :=
      fun h => by
        induction h with
        | nil => rfl
        | cons hp _ ih => rw [List.map_cons, List.map_cons, name_of_ofField hp, ih]
    rw [hnames (mapM_eq_ok.mp hfields), Fields.names, List.filter_map]
    rfl
  · cases h

theorem fieldResults_eq {fields : List GroupField} {accumulators : List Accumulator}
    (h : fields.mapM (fun f => f.total docs) = .ok accumulators) :
    fields.mapM (fun f => do return (f.name, (← f.total docs).result)) =
      .ok ((fields.zip accumulators).map fun (field, a) => (field.name, a.result)) := by
  have hall := mapM_eq_ok.mp h
  clear h
  refine mapM_eq_ok.mpr ?_
  induction hall with
  | nil => exact .nil
  | cons ha _ ih => exact .cons (by rw [ha]; rfl) ih

theorem document_eq {group : Group} (hnames : ("_id" :: g.fields.map (·.name)).Nodup)
    (hlength : group.accumulators.length = g.fields.length) :
    g.document group = .object (("_id", group.id) ::
      (g.fields.zip group.accumulators).map fun (field, a) => (field.name, a.result)) := by
  have hzip : ((g.fields.zip group.accumulators).map fun (field, a) => (field.name, a.result)).map Prod.fst =
      g.fields.map (·.name) := by
    have hfst : (g.fields.zip group.accumulators).map Prod.fst = g.fields := List.map_fst_zip (by omega)
    conv_rhs => rw [← hfst]
    rw [List.map_map, List.map_map]
    rfl
  rw [document, Fields.ofList_of_nodup]
  rw [Fields.names, List.map_cons, hzip]
  exact hnames

theorem Collected.declared_eq (h : g.Collected docs ids groups) (hnames : ("_id" :: g.fields.map (·.name)).Nodup) :
    g.declared docs = .ok (groups.map g.document) := by
  rw [declared, h.ids_eq]
  show ((ids.map Value.key).eraseDups).mapM _ = _
  rw [← h.keys_eq, mapM_eq_ok, List.forall₂_map_left_iff, List.forall₂_map_right_iff, List.forall₂_same]
  intro group hgroup
  have htotals := h.totals_eq group hgroup
  rw [fieldResults_eq htotals, h.first_eq group hgroup,
    document_eq hnames (List.Forall₂.length_eq (mapM_eq_ok.mp htotals)).symm]
  rfl

/-- Grouping is its definition: it fails where some evaluation or accumulation fails, and otherwise comes to
    the declared groups. -/
theorem applyTo_eq_declared {spec : Document} (hnames : (Fields.names spec).Nodup)
    (hg : Grouping.ofValue (.object spec) = .ok g) (docs : List Value) :
    (g.Fails docs → ∃ e, g.applyTo none docs = .error e) ∧
      (¬g.Fails docs → ∃ out, g.declared docs = .ok out ∧ g.applyTo none docs = .ok out) := by
  constructor
  · intro hfails
    -- A pass that succeeds has collected all documents, and then none of them can have failed.
    refine not_exists_ok.mpr fun ⟨out, hout⟩ => ?_
    obtain ⟨groups, hgroups, -⟩ := bind_eq_ok.mp hout
    obtain ⟨ids, hids⟩ := collected_of_foldlM hgroups
    exact hids.not_fails hfails
  · intro hfails
    obtain ⟨groups, hgroups⟩ := exists_foldlM hfails
    obtain ⟨ids, hids⟩ := collected_of_foldlM hgroups
    have hnodup : ("_id" :: g.fields.map (·.name)).Nodup := by
      rw [names_of_ofValue hg]
      exact List.nodup_cons.mpr ⟨by simp, hnames.filter _⟩
    refine ⟨_, hids.declared_eq hnodup, ?_⟩
    rw [applyTo, hgroups]
    rfl

/-- A sum of `v` for each `k`. -/
def sums : Grouping := ⟨.string "$k", [⟨"sum", .intSum 0, .string "$v"⟩]⟩

theorem applyTo_sums : ∃ out,
    sums.declared [.object [("k", .int 1), ("v", .int 5)], .object [("v", .int 2)],
      .object [("k", .int 1), ("v", .int 7)]] = .ok out ∧
    sums.applyTo none [.object [("k", .int 1), ("v", .int 5)], .object [("v", .int 2)],
      .object [("k", .int 1), ("v", .int 7)]] = .ok out := by
  have hsums : Grouping.ofValue (.object [("_id", .string "$k"), ("sum", .object [("$sum", .string "$v")])]) =
      .ok sums := rfl
  have hdeclared := applyTo_eq_declared (by decide) hsums
    [.object [("k", .int 1), ("v", .int 5)], .object [("v", .int 2)], .object [("k", .int 1), ("v", .int 7)]]
  refine hdeclared.2 fun hfails => ?_
  obtain ⟨e, he⟩ := hdeclared.1 hfails
  cases he

end Grouping

end DocQuery
