import DocQuery.Proofs.Checked.Related
import DocQuery.Proofs.Path
import DocQuery.Stage.Projection

/-! The fields that specifications name. Their paths can be written with dots, whether or not they were nested, and
    what a projection computes can be specified by itself. -/

namespace DocQuery

open Checked

variable {stage name : String} {path p q : Path}

/-! ### Paths of fields -/

/-- The path can be written as one field name. -/
def IsFieldPath (path : Path) : Prop := ∃ name, isFieldName name ∧ Path.ofString name = path

theorem checkFieldName_eq_ok : checkFieldName stage name = .ok path ↔ isFieldName name ∧ Path.ofString name = path := by
  unfold checkFieldName
  split
  · next h => simp [h]
  · next h => simp [h]

theorem IsFieldPath.exists_checked (h : IsFieldPath path) (stage : String) :
    ∃ name, checkFieldName stage name = .ok path := by
  obtain ⟨name, hname⟩ := h
  exact ⟨name, checkFieldName_eq_ok.mpr hname⟩

theorem IsFieldPath.append (hp : IsFieldPath p) (hq : IsFieldPath q) : IsFieldPath (p ++ q) := by
  obtain ⟨name, hname, rfl⟩ := hp
  obtain ⟨text, htext, rfl⟩ := hq
  simp only [isFieldName, Bool.and_eq_true, Bool.not_eq_true'] at hname htext
  refine ⟨name ++ "." ++ text, ?_, Path.ofString_join name text⟩
  simp only [isFieldName, Path.ofString_join, isOperatorName_append hname.1, Bool.not_false, Bool.true_and,
    List.contains_append, hname.2, htext.2, Bool.or_self]

section Leaves

variable {α : Type} {leaf : Value → Checked α}

mutual

theorem Value.yields_fieldPaths : ∀ (v : Value) {path : Path}, IsFieldPath path →
    Yields (fun fields => ∀ f ∈ fields, IsFieldPath f.1) (fun _ => True) (v.leafFields stage leaf path)
  | .object fields, path, h => by
    rw [Value.leafFields]
    split
    · exact yields_fieldPaths fields (.inr h)
    · exact Yields.anyhow.bind fun _ _ => List.forall_mem_singleton.mpr h
  | .missing, _, h | .null, _, h | .bool _, _, h | .int _, _, h | .double _, _, h | .string _, _, h | .date _, _, h
  | .array _, _, h => Yields.anyhow.bind fun _ _ => List.forall_mem_singleton.mpr h

/-- Fields have paths that can be written as one name, each. -/
theorem yields_fieldPaths : ∀ (fields : List (String × Value)) {parent : Path}, parent = [] ∨ IsFieldPath parent →
    Yields (fun fields => ∀ f ∈ fields, IsFieldPath f.1) (fun _ => True) (leafFieldsOf stage leaf parent fields)
  | [], _, _ => List.forall_mem_nil _
  | (name, v) :: rest, parent, h => by
    rw [leafFieldsOf]
    cases hpath : checkFieldName stage name with
    | error => trivial
    | ok path =>
      have hfield : IsFieldPath path := ⟨name, checkFieldName_eq_ok.mp hpath⟩
      have hhere : IsFieldPath (parent ++ path) := by
        rcases h with rfl | h
        · exact hfield
        · exact h.append hfield
      refine (Value.yields_fieldPaths v hhere).bind fun here hhere => ?_
      exact (yields_fieldPaths rest h).bind fun others hothers => List.forall_mem_append.mpr ⟨hhere, hothers⟩

end

end Leaves

/-! ### What is computed -/

mutual

/-- What is left of the specification of a field without what is kept or dropped; nothing if nothing is computed. -/
def Value.computedPart : Value → Option Value
  | .object fields =>
    if nestsFields fields then
      if (computedParts fields).isEmpty then none else some (.object (computedParts fields))
    else some (.object fields)
  | .bool _ | .int _ | .double _ => none
  | v => some v

def computedParts : List (String × Value) → List (String × Value)
  | [] => []
  | (name, v) :: rest =>
    match v.computedPart with
    | some part => (name, part) :: computedParts rest
    | none => computedParts rest

end

/-- The expression for the field, if it is computed. -/
def Action.expression? : Action → Option Value
  | compute e => some e
  | _ => none

/-- The computed fields among the fields of a projection. -/
def computedAmong (fields : List (Path × Action)) : Computed := fields.filterMap fun f => f.2.expression?.map (f.1, ·)

theorem names_computedParts_sublist : ∀ fields : List (String × Value),
    (Fields.names (computedParts fields)).Sublist (Fields.names fields)
  | [] => .refl _
  | (name, v) :: rest => by
    rw [computedParts]
    split
    · exact (names_computedParts_sublist rest).cons_cons name
    · exact (names_computedParts_sublist rest).cons name

theorem nestsFields_computedParts {fields : Document} (h : nestsFields fields)
    (hsome : (computedParts fields).isEmpty = false) : nestsFields (computedParts fields) := by
  simp only [nestsFields, Bool.and_eq_true, Bool.not_eq_true', List.any_eq_false] at *
  refine ⟨hsome, fun f hf => ?_⟩
  have hname : f.1 ∈ Fields.names fields := (names_computedParts_sublist fields).subset (List.mem_map_of_mem hf)
  obtain ⟨g, hg, hgf⟩ := List.mem_map.mp hname
  exact hgf ▸ h.2 g hg

theorem computedAmong_append (fields others : List (Path × Action)) :
    computedAmong (fields ++ others) = computedAmong fields ++ computedAmong others := List.filterMap_append

theorem leaf_of_compute {v : Value} {fields : List (Path × Action)}
    (h : (do return [(path, ← (do Expr.validate v; return Action.compute v))] : Checked _) = .ok fields) :
    (do return [(path, ← Computed.leaf v)] : Checked Computed) = .ok (computedAmong fields) := by
  obtain ⟨action, haction, hfields⟩ := bind_eq_ok.mp h
  obtain ⟨_, hvalid, hcompute⟩ := bind_eq_ok.mp haction
  cases hcompute
  cases hfields
  rw [Computed.leaf, hvalid]
  rfl

mutual

/-- What a projection computes of a field is specified by the part of the specification that is left. -/
theorem Value.computedPart_cases (stage : String) : ∀ (v : Value) {path : Path} {fields : List (Path × Action)},
    v.leafFields "$project" Action.ofValue path = .ok fields →
      (∃ part, v.computedPart = some part ∧ part.leafFields stage Computed.leaf path = .ok (computedAmong fields)) ∨
        v.computedPart = none ∧ computedAmong fields = []
  | .object spec, path, fields, h => by
    rw [Value.leafFields] at h
    rw [Value.computedPart]
    split at h
    · next hnests =>
      -- If nothing inside is computed, no part is left, as no fields at all would be a leaf.
      have hparts := leafFieldsOf_computedParts stage spec h
      cases hempty : (computedParts spec).isEmpty with
      | true =>
        rw [List.isEmpty_iff.mp hempty] at hparts
        exact .inr ⟨by rw [if_pos hnests, if_pos rfl], (Except.ok.inj hparts).symm⟩
      | false =>
        refine .inl ⟨_, by rw [if_pos hnests, if_neg Bool.false_ne_true], ?_⟩
        rw [Value.leafFields, if_pos (nestsFields_computedParts hnests hempty), hparts]
    · next hstands =>
      refine .inl ⟨_, if_neg hstands, ?_⟩
      rw [Value.leafFields, if_neg hstands]
      exact leaf_of_compute h
  | .bool b, path, fields, h => by
    obtain ⟨action, haction, hfields⟩ := bind_eq_ok.mp h
    cases hfields
    cases b <;> cases haction <;> exact .inr ⟨rfl, rfl⟩
  | .int n, path, fields, h => by
    obtain ⟨action, haction, hfields⟩ := bind_eq_ok.mp h
    cases hfields
    cases haction
    exact .inr ⟨rfl, by split <;> rfl⟩
  | .double x, path, fields, h => by
    obtain ⟨action, haction, hfields⟩ := bind_eq_ok.mp h
    cases hfields
    cases haction
    exact .inr ⟨rfl, by split <;> rfl⟩
  | .missing, _, _, h | .null, _, _, h | .string _, _, _, h | .date _, _, _, h | .array _, _, _, h =>
    .inl ⟨_, rfl, leaf_of_compute h⟩

theorem leafFieldsOf_computedParts (stage : String) : ∀ (spec : List (String × Value)) {parent : Path}
    {fields : List (Path × Action)}, leafFieldsOf "$project" Action.ofValue parent spec = .ok fields →
      leafFieldsOf stage Computed.leaf parent (computedParts spec) = .ok (computedAmong fields)
  | [], _, _, h => by
    cases h
    rfl
  | (name, v) :: rest, parent, fields, h => by
    rw [leafFieldsOf] at h
    obtain ⟨path, hpath, hfields⟩ := bind_eq_ok.mp h
    obtain ⟨here, hhere, hfields⟩ := bind_eq_ok.mp hfields
    obtain ⟨others, hothers, hfields⟩ := bind_eq_ok.mp hfields
    obtain rfl := Except.ok.inj hfields
    have hparts := leafFieldsOf_computedParts stage rest hothers
    rw [computedAmong_append, computedParts]
    rcases Value.computedPart_cases stage v hhere with ⟨part, hpart, hleaf⟩ | ⟨hnone, hnothing⟩
    · have hname : checkFieldName stage name = .ok path := checkFieldName_eq_ok.mpr (checkFieldName_eq_ok.mp hpath)
      rw [hpart]
      exact bind_eq_ok.mpr ⟨path, hname, bind_eq_ok.mpr ⟨_, hleaf, bind_eq_ok.mpr ⟨_, hparts, rfl⟩⟩⟩
    · rw [hnone, hnothing]
      exact hparts

end

end DocQuery
