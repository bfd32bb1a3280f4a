import DocQuery.Path
import DocQuery.Proofs.Fields
import DocQuery.Proofs.Value.Induction
import DocQuery.Value.Json

/-! Well-formed values: at every depth the names of an object are distinct, and nothing missing is kept in an
    array or an object; values are distinct if only the former holds, and whole if only the latter does. Values read
    from JSON are well formed. Navigation leads from well-formed values to well-formed values or to nothing, and
    writing, removing and copying along a path keep objects well formed. -/

namespace DocQuery

namespace Value

/-- Neither missing nor made of other values. -/
def isScalar : Value → Bool
  | missing | array _ | object _ => false
  | _ => true

inductive WellFormed : Value → Prop
  | scalar {v : Value} : v.isScalar → WellFormed v
  | array {items : List Value} : (∀ v ∈ items, WellFormed v) → WellFormed (.array items)
  | object {fields : List (String × Value)} :
    (Fields.names fields).Nodup → (∀ f ∈ fields, WellFormed f.2) → WellFormed (.object fields)

/-- Nothing is missing, at any depth. -/
inductive Whole : Value → Prop
  | scalar {v : Value} : v.isScalar → Whole v
  | array {items : List Value} : (∀ v ∈ items, Whole v) → Whole (.array items)
  | object {fields : List (String × Value)} : (∀ f ∈ fields, Whole f.2) → Whole (.object fields)

/-- At every depth the names of an object are distinct. -/
inductive Distinct : Value → Prop
  | leaf {v : Value} : v.isArray = false → v.isObject = false → Distinct v
  | array {items : List Value} : (∀ v ∈ items, Distinct v) → Distinct (.array items)
  | object {fields : List (String × Value)} :
    (Fields.names fields).Nodup → (∀ f ∈ fields, Distinct f.2) → Distinct (.object fields)

/-- A property that a value has by its parts, and that all ways to change the fields of an object keep. -/
structure Kept (K : Value → Prop) : Prop where
  scalar {v : Value} : v.isScalar → K v
  array {items : List Value} : (∀ v ∈ items, K v) → K (.array items)
  items {items : List Value} : K (.array items) → ∀ v ∈ items, K v
  empty : K (.object [])
  fields {fields : Document} : K (.object fields) → ∀ f ∈ fields, K f.2
  insert {fields : Document} {v : Value} (name : String) :
    K (.object fields) → K v → K (.object (fields.insert name v))
  erase {fields : Document} (name : String) : K (.object fields) → K (.object (fields.erase name))
  modify {fields : Document} {f : Value → Value} (name : String) :
    K (.object fields) → (∀ v, K v → K (f v)) → K (.object (fields.modify name f))

/-- What a look into a well-formed value comes to. -/
def WellFormedIfAny (v : Value) : Prop := v = missing ∨ v.WellFormed

/-- An object that is well formed. -/
def IsDocument (v : Value) : Prop := v.isObject ∧ v.WellFormed

abbrev AreDocuments (docs : List Value) : Prop := ∀ d ∈ docs, d.IsDocument

variable {v : Value} {vs : List Value} {fields : Document}

namespace WellFormed

theorem ne_missing (h : v.WellFormed) : v ≠ missing := by
  rintro rfl
  cases h with | scalar h => exact Bool.noConfusion h

theorem ifAny (h : v.WellFormed) : v.WellFormedIfAny := .inr h

theorem items (h : (Value.array vs).WellFormed) : ∀ v ∈ vs, v.WellFormed := by
  cases h with
  | scalar h => exact Bool.noConfusion h
  | array h => exact h

theorem proper (h : (Value.object fields).WellFormed) : Fields.Proper WellFormed fields := by
  cases h with
  | scalar h => exact Bool.noConfusion h
  | object hnames hvalues => exact ⟨hnames, hvalues⟩

theorem proper_of_toObject? (h : v.WellFormed) (hv : v.toObject? = some fields) : Fields.Proper WellFormed fields := by
  cases v with
  | object fields => exact Option.some.inj hv ▸ h.proper
  | _ => exact nomatch hv

theorem of_proper (h : Fields.Proper WellFormed fields) : (Value.object fields).WellFormed :=
  .object h.nodup h.values

theorem kept : Kept WellFormed where
  scalar := .scalar
  array := .array
  items := items
  empty := of_proper .nil
  fields h := h.proper.values
  insert name h hv := of_proper (h.proper.insert name hv)
  erase name h := of_proper (h.proper.erase name)
  modify name h hf := of_proper (h.proper.modify name hf)

end WellFormed

namespace Whole

theorem ne_missing (h : v.Whole) : v ≠ missing := by
  rintro rfl
  cases h with | scalar h => exact Bool.noConfusion h

theorem items (h : (Value.array vs).Whole) : ∀ v ∈ vs, v.Whole := by
  cases h with
  | scalar h => exact Bool.noConfusion h
  | array h => exact h

theorem of_fields (h : (Value.object fields).Whole) : ∀ f ∈ fields, f.2.Whole := by
  cases h with
  | scalar h => exact Bool.noConfusion h
  | object h => exact h

theorem get? (h : (Value.object fields).Whole) {name : String} (hv : fields.get? name = some v) : v.Whole :=
  h.of_fields _ (Fields.mem_of_get?_eq_some hv)

theorem isMissing_eq (h : v.Whole) : v.isMissing = false := by
  cases v with
  | missing => exact absurd rfl h.ne_missing
  | _ => rfl

theorem orNull_eq (h : v.Whole) : v.orNull = v := by
  cases v with
  | missing => exact absurd rfl h.ne_missing
  | _ => rfl

theorem kept : Kept Whole where
  scalar := .scalar
  array := .array
  items := items
  empty := .object (List.forall_mem_nil _)
  fields := of_fields
  insert name h hv := .object fun f hf => by
    rcases Fields.mem_insert hf with hf | rfl
    · exact h.of_fields f hf
    · exact hv
  erase name h := .object fun f hf => h.of_fields f ((Fields.erase_sublist _ name).subset hf)
  modify name h hf := .object (Fields.forall_modify h.of_fields hf)

end Whole

namespace Distinct

theorem items (h : (Value.array vs).Distinct) : ∀ v ∈ vs, v.Distinct := by
  cases h with
  | leaf h => exact Bool.noConfusion h
  | array h => exact h

theorem proper (h : (Value.object fields).Distinct) : Fields.Proper Distinct fields := by
  cases h with
  | leaf _ h => exact Bool.noConfusion h
  | object hnames hvalues => exact ⟨hnames, hvalues⟩

theorem of_proper (h : Fields.Proper Distinct fields) : (Value.object fields).Distinct := .object h.nodup h.values

theorem kept : Kept Distinct where
  scalar {v} h := by
    cases v with
    | missing | array | object => exact Bool.noConfusion h
    | _ => exact .leaf rfl rfl
  array := .array
  items := items
  empty := of_proper .nil
  fields h := h.proper.values
  insert name h hv := of_proper (h.proper.insert name hv)
  erase name h := of_proper (h.proper.erase name)
  modify name h hf := of_proper (h.proper.modify name hf)

end Distinct

theorem WellFormed.distinct (h : v.WellFormed) : v.Distinct := by
  induction h with
  | scalar h => exact Distinct.kept.scalar h
  | array _ ih => exact .array ih
  | object hnames _ ih => exact .object hnames ih

theorem WellFormed.whole (h : v.WellFormed) : v.Whole := by
  induction h with
  | scalar h => exact .scalar h
  | array _ ih => exact .array ih
  | object _ _ ih => exact .object ih

namespace WellFormedIfAny

theorem of_not_missing (h : v.WellFormedIfAny) (hv : v.isMissing = false) : v.WellFormed := by
  rcases h with rfl | h
  · exact Bool.noConfusion hv
  · exact h

theorem of_not_nullish (h : v.WellFormedIfAny) (hv : v.isNullish = false) : v.WellFormed := by
  rcases h with rfl | h
  · exact Bool.noConfusion hv
  · exact h

theorem orNull (h : v.WellFormedIfAny) : v.orNull.WellFormed := by
  rcases h with rfl | h
  · exact .scalar rfl
  · cases v with
    | missing => exact absurd rfl h.ne_missing
    | _ => exact h

theorem getD {o : Option Value} (h : ∀ v, o = some v → v.WellFormed) : (o.getD missing).WellFormedIfAny := by
  cases o with
  | none => exact .inl rfl
  | some v => exact .inr (h v rfl)

end WellFormedIfAny

theorem wellFormed_ofCount (n : Nat) : (ofCount n).WellFormed := by
  unfold ofCount
  split <;> exact .scalar rfl

theorem isDocument_object (h : Fields.Proper WellFormed fields) : IsDocument (.object fields) :=
  ⟨rfl, .of_proper h⟩

theorem IsDocument.exists_fields (h : v.IsDocument) :
    ∃ fields, v = .object fields ∧ Fields.Proper WellFormed fields := by
  obtain ⟨hv, hwf⟩ := h
  cases v with
  | object fields => exact ⟨fields, rfl, hwf.proper⟩
  | _ => exact Bool.noConfusion hv

/-! ### From JSON -/

mutual

theorem wellFormed_ofJson : ∀ j, (ofJson j).WellFormed
  | .null | .bool _ | .double _ | .string _ => .scalar rfl
  | .integer n => by
    rw [ofJson]
    split <;> exact .scalar rfl
  | .array items => .array (wellFormed_ofItems items)
  | .object members => by
    rw [ofJson]
    split
    · exact .scalar rfl
    · exact .of_proper (.ofList (wellFormed_ofMembers members))

theorem wellFormed_ofItems : ∀ items, ∀ v ∈ ofItems items, v.WellFormed
  | [], _, h => nomatch h
  | item :: rest, v, h => by
    rcases List.mem_cons.mp h with rfl | h
    · exact wellFormed_ofJson item
    · exact wellFormed_ofItems rest v h

theorem wellFormed_ofMembers : ∀ members, ∀ f ∈ ofMembers members, f.2.WellFormed
  | [], _, h => nomatch h
  | (_, j) :: rest, f, h => by
    rcases List.mem_cons.mp h with rfl | h
    · exact wellFormed_ofJson j
    · exact wellFormed_ofMembers rest f h

end

end Value

namespace Path

open Value

variable {v value : Value} {doc source target : Document}

/-! ### Reading -/

theorem descendItems_eq (segment : String) (rest : Value → Value) : ∀ items,
    descendItems segment rest items = (items.map (descend segment rest)).filter (!·.isMissing)
  | [] => rfl
  | item :: items => by
    rw [descendItems, List.map_cons, descendItems_eq segment rest items]
    cases h : (descend segment rest item).isMissing <;> simp [h]

theorem wellFormed_step? {segment : String} (h : v.WellFormed) (hstep : step? v segment = some value) :
    value.WellFormed := by
  unfold step? at hstep
  split at hstep
  · exact h.proper.get? hstep
  · obtain ⟨i, -, hi⟩ := Option.bind_eq_some_iff.mp hstep
    exact h.items _ (List.mem_of_getElem? hi)
  · exact nomatch hstep

theorem wellFormed_get? : ∀ (path : Path) {v : Value}, v.WellFormed → path.get? v = some value → value.WellFormed
  | [], v, h, hget => Option.some.inj hget ▸ h
  | segment :: rest, v, h, hget => by
    obtain ⟨child, hchild, hget⟩ := Option.bind_eq_some_iff.mp hget
    exact wellFormed_get? rest (wellFormed_step? h hchild) hget

/-! ### Writing -/

theorem proper_fieldsOf (h : v.WellFormedIfAny) : Fields.Proper WellFormed (fieldsOf v) := by
  rcases h with rfl | h
  · exact .nil
  · cases v with
    | object fields => exact h.proper
    | _ => exact .nil

section Kept

variable {K : Value → Prop} (hK : Kept K)

include hK

theorem kept_fieldsOf (h : v.isObject → K v) : K (.object (fieldsOf v)) := by
  cases v with
  | object fields => exact h rfl
  | _ => exact hK.empty

theorem kept_set : ∀ (path : Path) {doc : Document}, K value → K (.object doc) → K (.object (path.set value doc))
  | [], _, _, hdoc => hdoc
  | [segment], _, hvalue, hdoc => hK.insert segment hdoc hvalue
  | segment :: next :: rest, doc, hvalue, hdoc => by
    have hchild : ∀ v, doc.get? segment = some v → K v := fun v hget =>
      hK.fields hdoc _ (Fields.mem_of_get?_eq_some hget)
    rw [set]
    -- An array keeps its length: each item is set by itself, one that is no object from an empty one.
    split
    · next items hget =>
      refine hK.insert segment hdoc (hK.array fun item hitem => ?_)
      obtain ⟨old, hold, rfl⟩ := List.mem_map.mp hitem
      exact kept_set (next :: rest) hvalue (kept_fieldsOf hK fun _ => hK.items (hchild _ hget) old hold)
    · refine hK.insert segment hdoc (kept_set (next :: rest) hvalue (kept_fieldsOf hK fun hobject => ?_))
      cases hget : doc.get? segment with
      | none =>
        rw [hget] at hobject
        exact Bool.noConfusion hobject
      | some v => exact hchild v hget

theorem kept_remove : ∀ (path : Path) {doc : Document}, K (.object doc) → K (.object (path.remove doc))
  | [], _, hdoc => hdoc
  | [segment], _, hdoc => hK.erase segment hdoc
  | segment :: next :: rest, doc, hdoc => by
    rw [remove]
    refine hK.modify segment hdoc fun child hchild => ?_
    split
    · exact kept_remove (next :: rest) hchild
    · refine hK.array fun item hitem => ?_
      obtain ⟨old, hold, rfl⟩ := List.mem_map.mp hitem
      have hold := hK.items hchild old hold
      split
      · exact kept_remove (next :: rest) hold
      · exact hold
    · exact hchild

end Kept

theorem proper_set (path : Path) {doc : Document} (hvalue : value.WellFormed) (hdoc : Fields.Proper WellFormed doc) :
    Fields.Proper WellFormed (path.set value doc) := (kept_set WellFormed.kept path hvalue (.of_proper hdoc)).proper

theorem proper_remove (path : Path) {doc : Document} (hdoc : Fields.Proper WellFormed doc) :
    Fields.Proper WellFormed (path.remove doc) := (kept_remove WellFormed.kept path (.of_proper hdoc)).proper

theorem wellFormed_zipWith {f : Value → Document → Value} {places : List Value} {objects : List Document}
    (hplaces : ∀ place ∈ places, place.WellFormed) (hobjects : ∀ o ∈ objects, Fields.Proper WellFormed o)
    (hf : ∀ place o, place.WellFormed → Fields.Proper WellFormed o → (f place o).WellFormed) :
    ∀ v ∈ places.zipWith f objects, v.WellFormed := by
  intro v hv
  rw [← List.map_uncurry_zip_eq_zipWith] at hv
  obtain ⟨⟨place, o⟩, hpair, rfl⟩ := List.mem_map.mp hv
  obtain ⟨hplace, ho⟩ := List.of_mem_zip hpair
  exact hf place o (hplaces place hplace) (hobjects o ho)

theorem proper_copy : ∀ (path : Path) {source target : Document}, Fields.Proper WellFormed source →
    Fields.Proper WellFormed target → Fields.Proper WellFormed (path.copy source target)
  | [], _, _, _, htarget => htarget
  | segment :: rest, source, target, hsource, htarget => by
    rw [copy]
    split
    · exact htarget
    · next value hget =>
      have hvalue := hsource.get? hget
      split
      · exact htarget.insert segment hvalue
      · have hthere : ((target.get? segment).getD .missing).WellFormedIfAny := .getD fun v hget => htarget.get? hget
        exact htarget.insert segment (.of_proper (proper_copy rest hvalue.proper (proper_fieldsOf hthere)))
      · next items _ =>
        have hobjects : ∀ inner ∈ items.filterMap toObject?, Fields.Proper WellFormed inner := by
          intro inner hinner
          obtain ⟨item, hitem, hinner⟩ := List.mem_filterMap.mp hinner
          exact (hvalue.items item hitem).proper_of_toObject? hinner
        refine htarget.insert segment (.array (wellFormed_zipWith ?_ hobjects fun place inner hplace hinner => ?_))
        · -- The places are those that are there or new ones.
          have hfresh : ∀ place ∈ (items.filterMap toObject?).map fun _ => object [], place.WellFormed := by
            intro place hplace
            obtain ⟨_, -, rfl⟩ := List.mem_map.mp hplace
            exact .of_proper .nil
          split
          · next hthere =>
            split
            · exact (htarget.get? hthere).items
            · exact hfresh
          · exact hfresh
        · split
          · exact .of_proper (proper_copy rest hinner hplace.proper)
          · exact hplace
      · exact htarget

end Path

end DocQuery
