import DocQuery.Proofs.Checked
import DocQuery.Proofs.Schema.Groups

/-! Keywords of schemas. Each keyword adds a constraint to what is there, which is that of its group alone, so that a
    schema is the conjunction of the schemas that the groups write. -/

namespace DocQuery.Schema

open Checked

variable {s t : Schema} {keyword : String} {v : Value} {k : String × Value} {keywords rest : List (String × Value)}

/-! ### Reading a keyword -/

/-- The keyword a group is called after. -/
def keywordGroup : String → String
  | "bsonType" => "type"
  | "additionalProperties" => "properties"
  | keyword => keyword

/-- What a keyword with a value adds to a schema. -/
inductive Adds (v : Value) : String → (Schema → Schema) → Prop
  | type {types : List ValueType} (h : typesOf "type" v = .ok types) :
    Adds v "type" fun s => { s with types := some (s.types.getD [] ++ types) }
  | bsonType {types : List ValueType} (h : typesOf "bsonType" v = .ok types) :
    Adds v "bsonType" fun s => { s with types := some (s.types.getD [] ++ types) }
  | required {names : List String} (h : fieldNamesOf v = .ok names) :
    Adds v "required" fun s => { s with required := names }
  | properties {ps : List (String × Schema)} (h : propertiesOf v = .ok ps) :
    Adds v "properties" fun s => { s with properties := ps }
  | minimum {x : Double} (h : numberOf "minimum" v = .ok x) : Adds v "minimum" fun s => { s with minimum := some x }
  | maximum {x : Double} (h : numberOf "maximum" v = .ok x) : Adds v "maximum" fun s => { s with maximum := some x }
  | pattern {p : Pattern} (h : patternOf v = .ok p) : Adds v "pattern" fun s => { s with pattern := some p }
  | enum {values : List Value} (h : allowedOf v = .ok values) :
    Adds v "enum" fun s => { s with allowed := some values }
  | minLength {n : Nat} (h : countOf "minLength" v = .ok n) :
    Adds v "minLength" fun s => { s with minLength := some n }
  | maxLength {n : Nat} (h : countOf "maxLength" v = .ok n) :
    Adds v "maxLength" fun s => { s with maxLength := some n }
  | minItems {n : Nat} (h : countOf "minItems" v = .ok n) : Adds v "minItems" fun s => { s with minItems := some n }
  | maxItems {n : Nat} (h : countOf "maxItems" v = .ok n) : Adds v "maxItems" fun s => { s with maxItems := some n }
  | additionalProperties {closed : Bool} (h : closedOf v = .ok closed) :
    Adds v "additionalProperties" fun s => { s with closed := closed }
  | items {i : Schema} (h : ofValue v = .ok i) : Adds v "items" fun s => { s with items := some i }
  | description : Adds v "description" id
  | title : Adds v "title" id

theorem ofKeywords_cons_eq_ok :
    ofKeywords (k :: rest) s = .ok t ↔ ∃ f, Adds k.2 k.1 f ∧ ofKeywords rest (f s) = .ok t := by
  obtain ⟨keyword, v⟩ := k
  constructor
  · intro h
    unfold ofKeywords at h
    dsimp only at h
    split at h
    case h_15 => exact ⟨_, .description, h⟩
    case h_16 => exact ⟨_, .title, h⟩
    case h_17 => cases h
    all_goals
      obtain ⟨x, hx, hrest⟩ := bind_eq_ok.mp h
      rw [pure_bind] at hrest
      exact ⟨_, by constructor; exact hx, hrest⟩
  · rintro ⟨f, hf, hrest⟩
    cases hf with
    | description | title =>
      simp only [ofKeywords]
      exact hrest
    | _ h =>
      simp only [ofKeywords, h]
      exact hrest

theorem ofKeywords_append_eq_ok (before : List (String × Value)) :
    ofKeywords (before ++ rest) s = .ok t ↔ ∃ u, ofKeywords before s = .ok u ∧ ofKeywords rest u = .ok t := by
  induction before generalizing s with
  | nil => simp [ofKeywords]
  | cons k before ih =>
    simp only [List.cons_append, ofKeywords_cons_eq_ok, ih]
    constructor
    · rintro ⟨f, hf, u, hu, hrest⟩
      exact ⟨u, ⟨f, hf, hu⟩, hrest⟩
    · rintro ⟨u, ⟨f, hf, hu⟩, hrest⟩
      exact ⟨f, hf, u, hu, hrest⟩

/-- Whether keywords are read does not depend on what was there. -/
theorem exists_ofKeywords : (∃ t, ofKeywords keywords s = .ok t) ↔ ∀ k ∈ keywords, ∃ f, Adds k.2 k.1 f := by
  induction keywords generalizing s with
  | nil => exact iff_of_true ⟨s, rfl⟩ (List.forall_mem_nil _)
  | cons k rest ih =>
    simp only [ofKeywords_cons_eq_ok, List.forall_mem_cons]
    constructor
    · rintro ⟨t, f, hf, hrest⟩
      exact ⟨⟨f, hf⟩, ih.mp ⟨t, hrest⟩⟩
    · rintro ⟨⟨f, hf⟩, hrest⟩
      obtain ⟨t, ht⟩ := ih.mpr hrest
      exact ⟨t, f, hf, ht⟩

/-! ### Groups of keywords -/

/-- The keywords of one group. -/
def part (keywords : List (String × Value)) (group : String) : List (String × Value) :=
  keywords.filter fun k => keywordGroup k.1 == group

theorem mem_part {group : String} : k ∈ part keywords group ↔ k ∈ keywords ∧ keywordGroup k.1 = group := by
  rw [part, List.mem_filter, beq_iff_eq]

theorem part_cons_of_eq {group : String} (h : keywordGroup k.1 = group) :
    part (k :: rest) group = k :: part rest group := by
  simp [part, h]

theorem part_cons_of_ne {group : String} (h : keywordGroup k.1 ≠ group) : part (k :: rest) group = part rest group := by
  simp [part, h]

namespace Adds

variable {f : Schema → Schema}

/-- A keyword adds to its group what it adds to all constraints. -/
theorem only_self (h : Adds v keyword f) (s : Schema) :
    f (only (keywordGroup keyword) s) = only (keywordGroup keyword) (f s) := by
  cases h <;> simp [keywordGroup, only]

/-- A keyword adds nothing to other groups. -/
theorem only_other {group : String} (h : Adds v keyword f) (hne : keywordGroup keyword ≠ group) (s : Schema) :
    only group (f s) = only group s := by
  cases h <;> simp_all [keywordGroup, only, eq_comm]

end Adds

theorem ofKeywords_part (group : String) (h : ofKeywords keywords s = .ok t) :
    ofKeywords (part keywords group) (only group s) = .ok (only group t) := by
  induction keywords generalizing s with
  | nil =>
    cases h
    rfl
  | cons k rest ih =>
    obtain ⟨f, hf, hrest⟩ := ofKeywords_cons_eq_ok.mp h
    have hpart := ih hrest
    -- A keyword of the group adds the same to both schemas, and any other leaves the group as it is.
    by_cases hgroup : keywordGroup k.1 = group
    · subst hgroup
      rw [part_cons_of_eq rfl, ofKeywords_cons_eq_ok]
      refine ⟨f, hf, ?_⟩
      rw [hf.only_self]
      exact hpart
    · rw [part_cons_of_ne hgroup, ← hf.only_other hgroup]
      exact hpart

/-- A group of keywords alone writes the constraints of the group. -/
theorem ofValue_part (h : ofValue (.object keywords) = .ok s) (group : String) :
    ofValue (.object (part keywords group)) = .ok (only group s) := by
  rw [ofValue] at h ⊢
  rw [← only_empty group]
  exact ofKeywords_part group h

theorem accepts_iff_only : s.accepts v ↔ ∀ group, (only group s).accepts v := by
  rw [accepts_iff "", violations_eq_nil_iff_only]
  exact forall_congr' fun group => (accepts_iff "").symm

theorem only_of_part_eq_nil {group : String} (h : ofValue (.object keywords) = .ok s)
    (hpart : part keywords group = []) :
    only group s = {} := by
  have hempty := ofValue_part h group
  rw [hpart, ofValue, ofKeywords, Except.ok.injEq] at hempty
  exact hempty.symm

/-- A schema of types only. -/
theorem accepts_typed (types : Option (List ValueType)) (v : Value) :
    accepts { types } v ↔ typeViolations types "" v = [] := by
  rw [accepts_iff "", violations_eq_nil_iff]
  exact and_iff_left ⟨rfl, numberViolations_none _ _, textViolations_none _ _, countViolations_none _ _,
    itemViolations_none _ _, requiredViolations_nil _ _, propertyViolations_nil _ _, closedViolations_false _ _ _⟩

theorem accepts_empty (v : Value) : accepts {} v := (accepts_typed none v).mpr rfl

/-- A schema accepts what each group of its keywords accepts. -/
theorem accepts_iff_parts (h : ofValue (.object keywords) = .ok s) (v : Value) :
    s.accepts v ↔ ∀ keyword ∈ Fields.names keywords, (only (keywordGroup keyword) s).accepts v := by
  rw [accepts_iff_only]
  refine ⟨fun hall keyword _ => hall _, fun hall group => ?_⟩
  -- A group of which there is no keyword constrains nothing.
  by_cases hgroup : ∃ keyword ∈ Fields.names keywords, keywordGroup keyword = group
  · obtain ⟨keyword, hkeyword, rfl⟩ := hgroup
    exact hall keyword hkeyword
  · have hpart : part keywords group = [] := List.eq_nil_iff_forall_not_mem.mpr fun k hk =>
      hgroup ⟨k.1, List.mem_map_of_mem (mem_part.mp hk).1, (mem_part.mp hk).2⟩
    rw [only_of_part_eq_nil h hpart]
    exact accepts_empty v

/-! ### Names of types -/

theorem accepts_types (types : List ValueType) (v : Value) :
    accepts { types := some types } v ↔ types.any (·.describes v) := by
  rw [accepts_typed, typeViolations, breachIf_eq_nil, Bool.not_eq_false']

theorem Adds.exists_types {f : Schema → Schema} (h : Adds v keyword f) (hgroup : keywordGroup keyword = "type") :
    ∃ types, typesOf keyword v = .ok types ∧ ∀ s, f s = { s with types := some (s.types.getD [] ++ types) } := by
  cases h with
  | type htypes | bsonType htypes => exact ⟨_, htypes, fun _ => rfl⟩
  | _ => exact absurd hgroup (by decide)

/-- The type of the value is among those that a keyword names. -/
def Names (k : String × Value) (v : Value) : Prop :=
  ∃ types, typesOf k.1 k.2 = .ok types ∧ ∃ type ∈ types, type.describes v

/-- The types that keywords name add up. -/
theorem exists_types : ∀ {keywords : List (String × Value)} {s t : Schema}, keywords ≠ [] →
    (∀ k ∈ keywords, keywordGroup k.1 = "type") → ofKeywords keywords s = .ok t →
      ∃ types, t = { s with types := some (s.types.getD [] ++ types) } ∧
        ∀ v, types.any (·.describes v) ↔ ∃ k ∈ keywords, Names k v
  | (keyword, w) :: rest, s, t, _, hgroup, h => by
    obtain ⟨hkeyword, hrestgroup⟩ := List.forall_mem_cons.mp hgroup
    obtain ⟨f, hf, hrest⟩ := ofKeywords_cons_eq_ok.mp h
    obtain ⟨types, hnamed, htypes⟩ := hf.exists_types hkeyword
    have hfirst : ∀ v, Names (keyword, w) v ↔ types.any (·.describes v) := by
      intro v
      simp [Names, hnamed]
    simp only [List.exists_mem_cons_iff, hfirst]
    cases rest with
    | nil =>
      rw [ofKeywords, Except.ok.injEq, htypes] at hrest
      exact ⟨types, hrest.symm, fun v => by simp⟩
    | cons k rest =>
      obtain ⟨others, rfl, hothers⟩ := exists_types (List.cons_ne_nil _ _) hrestgroup hrest
      refine ⟨types ++ others, ?_, fun v => ?_⟩
      · rw [htypes, Option.getD_some, List.append_assoc]
      · rw [List.any_append, Bool.or_eq_true, hothers]

/-- The group of the keywords that name types accepts the union of what they name. -/
theorem accepts_only_type (h : ofValue (.object keywords) = .ok s) (hne : part keywords "type" ≠ []) (v : Value) :
    (only "type" s).accepts v ↔ ∃ k ∈ part keywords "type", Names k v := by
  have hpart := ofValue_part h "type"
  rw [ofValue] at hpart
  obtain ⟨types, htypes, hunion⟩ := exists_types hne (fun k hk => (mem_part.mp hk).2) hpart
  rw [htypes, ← hunion]
  exact accepts_types types v

end DocQuery.Schema
