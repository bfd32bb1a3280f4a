import DocQuery.Proofs.Expr.WellFormed
import DocQuery.Stage

/-! Well-formed stages: those in which every expression is well formed. Reading a well-formed specification makes
    such a stage. -/

namespace DocQuery

open Checked

/-! ### Accumulators -/

namespace Accumulator

/-- All values that the accumulator keeps are well formed. -/
def WellFormed : Accumulator → Prop
  | extremum _ best => ∀ v, best = some v → v.WellFormed
  | first value | last value => ∀ v, value = some v → v.WellFormed
  | push items | addToSet _ items => ∀ v ∈ items, v.WellFormed
  | merge fields => (Value.object fields).WellFormed
  | _ => True

variable {a : Accumulator} {v : Value} {name : String}

theorem wellFormed_of_ofName? (h : ofName? name = some a) : a.WellFormed := by
  have hfresh : ∀ f ∈ fresh, f.2.WellFormed := by
    simp only [fresh, List.forall_mem_cons, WellFormed]
    refine ⟨trivial, trivial, nofun, nofun, nofun, nofun, nofun, nofun, trivial, trivial, ?_, trivial, nofun⟩
    exact .of_proper .nil
  exact hfresh _ (Fields.mem_of_get?_eq_some h)

theorem wellFormed_addToInt {total : Int64} : (addToInt total v).WellFormed := by
  unfold addToInt
  split
  · split <;> trivial
  · trivial
  · trivial

theorem forall_mem_push {items : Array Value} (hitems : ∀ v ∈ items, v.WellFormed) (hv : v.WellFormed) :
    ∀ w ∈ items.push v, w.WellFormed := by
  intro w hw
  rcases Array.mem_push.mp hw with hw | rfl
  · exact hitems w hw
  · exact hv

theorem yields_add (ha : a.WellFormed) (hv : v.WellFormedIfAny) :
    Yields WellFormed (·.isNotDocument = false) (a.add v) := by
  cases a with
  | intSum total => exact wellFormed_addToInt
  | doubleSum total => trivial
  | average sum n =>
    rw [add]
    split <;> trivial
  | extremum keep best =>
    show WellFormed (.extremum keep _)
    split
    · exact ha
    · next hnullish =>
      have hv : v.WellFormed := hv.of_not_nullish (Bool.eq_false_iff.mpr hnullish)
      split
      · split
        · exact fun w hw => Option.some.inj hw ▸ hv
        · exact fun w hw => ha w hw
      · exact fun w hw => Option.some.inj hw ▸ hv
  | first value =>
    intro w hw
    cases value with
    | none => exact Option.some.inj hw ▸ hv.orNull
    | some v => exact Option.some.inj hw ▸ ha v rfl
  | last value => exact fun w hw => Option.some.inj hw ▸ hv.orNull
  | push items =>
    show WellFormed (.push _)
    split
    · exact ha
    · next hmissing => exact forall_mem_push ha (hv.of_not_missing (Bool.eq_false_iff.mpr hmissing))
  | addToSet seen items =>
    show WellFormed (if _ then _ else _)
    split
    · exact ha
    · next hnew =>
      rw [Bool.or_eq_true, not_or, Bool.not_eq_true] at hnew
      exact forall_mem_push ha (hv.of_not_missing hnew.1)
  | deviation sample n mean squares =>
    rw [add]
    split <;> trivial
  | merge fields =>
    have hmerged := Records.yields_mergeInto (D := Discipline.wellFormed) ha hv
    exact hmerged.bind fun fields hfields => hfields
  | count n => trivial

theorem wellFormed_result (ha : a.WellFormed) : a.result.WellFormed := by
  cases a with
  | intSum | doubleSum | count => exact .scalar rfl
  | average sum n =>
    rw [result]
    split <;> exact .scalar rfl
  | extremum keep best =>
    cases best with
    | none => exact .scalar rfl
    | some v => exact ha v rfl
  | first value | last value =>
    cases value with
    | none => exact .scalar rfl
    | some v => exact ha v rfl
  | push items | addToSet _ items => exact .array fun v hv => ha v (Array.mem_toList_iff.mp hv)
  | deviation sample n mean squares =>
    rw [result]
    split <;> split <;> exact .scalar rfl
  | merge fields => exact ha

end Accumulator

/-! ### Specifications -/

section Leaves

variable {α : Type} {K : Value → Prop} {P : α → Prop} {stage : String} {leaf : Value → Checked α}

mutual

/-- What a leaf makes of a value that is kept is in all fields that such a value specifies. -/
theorem Value.yields_leafFields (hK : Value.Kept K) (hleaf : ∀ v, K v → Yields P (fun _ => True) (leaf v)) :
    ∀ (v : Value) {path : Path}, K v →
      Yields (fun fields => ∀ f ∈ fields, P f.2) (fun _ => True) (v.leafFields stage leaf path)
  | .object fields, path, h => by
    rw [Value.leafFields]
    split
    · exact yields_leafFieldsOf hK hleaf fields (hK.fields h)
    · exact (hleaf _ h).bind fun _ ha => List.forall_mem_singleton.mpr ha
  | .missing, _, h | .null, _, h | .bool _, _, h | .int _, _, h | .double _, _, h | .string _, _, h | .date _, _, h
  | .array _, _, h => (hleaf _ h).bind fun _ ha => List.forall_mem_singleton.mpr ha

theorem yields_leafFieldsOf (hK : Value.Kept K) (hleaf : ∀ v, K v → Yields P (fun _ => True) (leaf v)) :
    ∀ (fields : List (String × Value)) {parent : Path}, (∀ f ∈ fields, K f.2) →
      Yields (fun fields => ∀ f ∈ fields, P f.2) (fun _ => True) (leafFieldsOf stage leaf parent fields)
  | [], _, _ => List.forall_mem_nil _
  | (name, v) :: rest, parent, h => by
    obtain ⟨hv, hrest⟩ := List.forall_mem_cons.mp h
    rw [leafFieldsOf]
    refine Yields.anyhow.bind fun path _ => (Value.yields_leafFields hK hleaf v hv).bind fun here hhere => ?_
    refine (yields_leafFieldsOf hK hleaf rest hrest).bind fun others hothers => ?_
    exact List.forall_mem_append.mpr ⟨hhere, hothers⟩

end

end Leaves

/-! ### Expressions in stages -/

/-- The property holds of what is computed, if anything is. -/
def Action.Computes (K : Value → Prop) : Action → Prop
  | compute expression => K expression
  | _ => True

def Action.WellFormed : Action → Prop
  | compute expression => expression.WellFormed
  | _ => True

theorem Action.Computes.wellFormed {action : Action} (h : action.Computes Value.WellFormed) : action.WellFormed := by
  cases action with
  | compute expression => exact h
  | _ => trivial

structure GroupField.WellFormed (f : GroupField) : Prop where
  start : f.start.WellFormed
  expression : f.expression.WellFormed

structure Grouping.WellFormed (g : Grouping) : Prop where
  id : g.id.WellFormed
  fields : ∀ f ∈ g.fields, f.WellFormed

/-- All expressions in the stage are well formed. -/
def Stage.WellFormed : Stage → Prop
  | project projection => ∀ f ∈ projection.fields, f.2.WellFormed
  | addFields computed => ∀ f ∈ computed, f.2.WellFormed
  | group grouping => grouping.WellFormed
  | replaceRoot expression | sortByCount expression => expression.WellFormed
  | _ => True

section Readers

variable {v : Value}

theorem Computed.yields_leaf (hv : v.WellFormed) : Yields Value.WellFormed (fun _ => True) (leaf v) :=
  Yields.anyhow.bind fun _ _ => hv

theorem Computed.yields_ofValue {stage : String} (hv : v.WellFormed) :
    Yields (fun computed => ∀ f ∈ computed, f.2.WellFormed) (fun _ => True) (Computed.ofValue stage v) := by
  cases v with
  | object fields =>
    rw [ofValue]
    split
    · trivial
    · exact yields_leafFieldsOf Value.WellFormed.kept (fun v hv => yields_leaf hv) fields hv.proper.values
  | _ => trivial

theorem Action.yields_ofValue {K : Value → Prop} (hv : K v) :
    Yields (Action.Computes K) (fun _ => True) (Action.ofValue v) := by
  unfold ofValue
  split
  · show Action.Computes K _
    split <;> trivial
  · show Action.Computes K _
    split <;> trivial
  · show Action.Computes K _
    split <;> trivial
  · exact Yields.anyhow.bind fun _ _ => hv

/-- Reading leaves in a projection nothing but parts of its specification. -/
theorem Projection.yields_computes {K : Value → Prop} (hK : Value.Kept K) (hv : K v) :
    Yields (fun p => ∀ f ∈ p.fields, f.2.Computes K) (fun _ => True) (Projection.ofValue v) := by
  cases v with
  | object spec =>
    rw [ofValue]
    split
    · trivial
    · refine (yields_leafFieldsOf hK (fun v hv => Action.yields_ofValue hv) spec (hK.fields hv)).bind
        fun fields hfields => ?_
      extract_lets finish
      split
      · split
        · trivial
        · exact hfields
      · exact hfields
  | _ => trivial

theorem Projection.yields_ofValue (hv : v.WellFormed) :
    Yields (fun p => ∀ f ∈ p.fields, f.2.WellFormed) (fun _ => True) (Projection.ofValue v) :=
  (yields_computes Value.WellFormed.kept hv).mono (fun _ h f hf => (h f hf).wellFormed) fun _ h => h

theorem GroupField.yields_ofField {name : String} (hv : v.WellFormed) :
    Yields GroupField.WellFormed (fun _ => True) (GroupField.ofField (name, v)) := by
  unfold ofField
  refine Yields.anyhow.bind fun path _ => ?_
  extract_lets goOn
  have hgoOn : Yields GroupField.WellFormed (fun _ => True) (goOn ()) := by
    unfold goOn
    split
    · next operator expression =>
      split
      · next start hstart =>
        refine Yields.anyhow.bind fun _ _ => Yields.anyhow.bind fun _ _ => ?_
        exact ⟨Accumulator.wellFormed_of_ofName? hstart, hv.proper.values _ List.mem_cons_self⟩
      · trivial
    · trivial
  split
  · trivial
  · exact hgoOn

theorem Grouping.yields_ofValue (hv : v.WellFormed) :
    Yields Grouping.WellFormed (fun _ => True) (Grouping.ofValue v) := by
  unfold ofValue
  split
  · next spec =>
    split
    · next id hid =>
      refine Yields.anyhow.bind fun _ _ => ?_
      have hfields : ∀ f ∈ spec.filter (·.1 ≠ "_id"), f.2.WellFormed :=
        fun f hf => hv.proper.values f (List.mem_of_mem_filter hf)
      refine Yields.bind (.mapM fun f hf => GroupField.yields_ofField (hfields f hf)) fun fields hread => ?_
      exact ⟨hv.proper.get? hid, hread⟩
    · trivial
  · trivial

theorem Stage.yields_newRootOf (hv : v.WellFormed) : Yields Value.WellFormed (fun _ => True) (Stage.newRootOf v) := by
  unfold Stage.newRootOf
  split
  · exact Yields.anyhow.bind fun _ _ => hv.proper.values _ List.mem_cons_self
  · trivial

theorem yields_countable (hv : v.WellFormed) : Yields Value.WellFormed (fun _ => True) (countable v) := by
  unfold countable
  extract_lets finish goOn
  have hgoOn : ∀ isExpression, Yields Value.WellFormed (fun _ => True) (goOn isExpression) := by
    intro isExpression
    show Yields Value.WellFormed (fun _ => True) (if !isExpression then _ else _)
    split
    · trivial
    · exact Yields.anyhow.bind fun _ _ => hv
  split
  · exact Yields.anyhow.bind fun _ _ => hgoOn _
  · exact Yields.anyhow.bind fun _ _ => Yields.anyhow.bind fun _ _ => hgoOn _
  · exact Yields.anyhow.bind fun _ _ => hgoOn _

/-- Reading a well-formed specification makes a stage in which every expression is well formed. -/
theorem Stage.yields_ofSpecification {name : String} (hv : v.WellFormed) :
    Yields Stage.WellFormed (fun _ => True) (Stage.ofSpecification name v) := by
  unfold ofSpecification
  split
  · exact Yields.anyhow.map fun _ _ => trivial
  · exact (Projection.yields_ofValue hv).map fun _ h => h
  · exact (Computed.yields_ofValue hv).map fun _ h => h
  · exact (Computed.yields_ofValue hv).map fun _ h => h
  · exact Yields.anyhow.map fun _ _ => trivial
  · exact (Grouping.yields_ofValue hv).map fun _ h => h
  · exact Yields.anyhow.map fun _ _ => trivial
  · exact Yields.anyhow.map fun _ _ => trivial
  · exact Yields.anyhow.map fun _ _ => trivial
  · exact Yields.anyhow.map fun _ _ => trivial
  · exact Yields.anyhow.map fun _ _ => trivial
  · exact (Stage.yields_newRootOf hv).map fun _ h => h
  · exact Yields.anyhow.bind fun _ _ => hv
  · exact (yields_countable hv).map fun _ h => h
  · trivial

end Readers

end DocQuery
