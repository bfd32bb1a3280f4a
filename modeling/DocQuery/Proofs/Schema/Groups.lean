import DocQuery.Proofs.Schema.Bounds

/-! Schemas as conjunctions. Whether a schema finds a violation does not depend on the place of the value, and it finds
    none iff each group of its constraints finds none alone. Schemas that differ in inner schemas only, where these
    have the same verdicts, have the same verdicts. -/

namespace DocQuery.Schema

variable {s t : Schema} {place : String} {v : Value}

/-! ### Places -/

section Places

variable (p q : String) (v : Value)

theorem typeViolations_place (types : Option (List ValueType)) :
    typeViolations types p v = [] ↔ typeViolations types q v = [] := by
  cases types with
  | none => exact Iff.rfl
  | some types => simp only [typeViolations, breachIf_eq_nil]

theorem allowedViolations_place (allowed : Option (List Value)) :
    allowedViolations allowed p v = [] ↔ allowedViolations allowed q v = [] := by
  cases allowed with
  | none => exact Iff.rfl
  | some values => simp only [allowedViolations, breachIf_eq_nil]

theorem numberViolations_place (minimum maximum : Option Double) :
    numberViolations minimum maximum p v = [] ↔ numberViolations minimum maximum q v = [] := by
  unfold numberViolations
  cases v.toDouble? with
  | none => exact Iff.rfl
  | some x => simp only [List.append_eq_nil_iff, List.flatMap_eq_nil_iff, breachIf_eq_nil]

theorem textViolations_place (minLength maxLength : Option Nat) (pattern : Option Pattern) :
    textViolations minLength maxLength pattern p v = [] ↔ textViolations minLength maxLength pattern q v = [] := by
  cases v with
  | string text => simp only [textViolations, List.append_eq_nil_iff, breachIf_eq_nil]
  | _ => exact Iff.rfl

theorem countViolations_place (minItems maxItems : Option Nat) :
    countViolations minItems maxItems p v = [] ↔ countViolations minItems maxItems q v = [] := by
  cases v with
  | array items => simp only [countViolations, List.append_eq_nil_iff, List.flatMap_eq_nil_iff, breachIf_eq_nil]
  | _ => exact Iff.rfl

theorem requiredViolations_place (required : List String) :
    requiredViolations required p v = [] ↔ requiredViolations required q v = [] := by
  cases v with
  | object fields => simp only [requiredViolations, List.flatMap_eq_nil_iff, breachIf_eq_nil]
  | _ => exact Iff.rfl

theorem closedViolations_place (closed : Bool) (properties : List String) :
    closedViolations closed properties p v = [] ↔ closedViolations closed properties q v = [] := by
  cases v with
  | object fields => simp only [closedViolations, List.flatMap_eq_nil_iff, breachIf_eq_nil]
  | _ => exact Iff.rfl

end Places

mutual

theorem violations_place : ∀ (s : Schema) (p q : String) (v : Value), violations s p v = [] ↔ violations s q v = []
  | { types, allowed, minimum, maximum, minLength, maxLength, pattern, minItems, maxItems, items, required, properties,
      closed }, p, q, v => by
    simp only [violations, List.append_eq_nil_iff]
    rw [typeViolations_place p q, allowedViolations_place p q, numberViolations_place p q, textViolations_place p q,
      countViolations_place p q, itemViolations_place items p q, requiredViolations_place p q,
      propertyViolations_place properties p q, closedViolations_place p q]

theorem itemViolations_place : ∀ (items : Option Schema) (p q : String) (v : Value),
    itemViolations items p v = [] ↔ itemViolations items q v = []
  | none, _, _, v => by rw [itemViolations_none, itemViolations_none]
  | some s, p, q, v => by
    cases v with
    | array values =>
      rw [itemViolations, itemViolations, List.flatMap_eq_nil_iff, List.flatMap_eq_nil_iff]
      exact forall₂_congr fun item _ => violations_place s _ _ item.1
    | _ => exact Iff.rfl

theorem propertyViolations_place : ∀ (properties : List (String × Schema)) (p q : String) (v : Value),
    propertyViolations properties p v = [] ↔ propertyViolations properties q v = []
  | [], _, _, v => by rw [propertyViolations_nil, propertyViolations_nil]
  | (field, s) :: rest, p, q, v => by
    cases v with
    | object fields =>
      simp only [propertyViolations, List.append_eq_nil_iff]
      refine and_congr ?_ (propertyViolations_place rest p q _)
      cases Fields.get? fields field with
      | none => exact Iff.rfl
      | some w => exact violations_place s _ _ w
    | _ => exact Iff.rfl

end

/-- A schema accepts a value iff it finds no violation, whatever the path of the value is. -/
theorem accepts_iff (place : String) : s.accepts v ↔ violations s place v = [] := by
  rw [accepts, List.isEmpty_iff]
  exact violations_place s "" place v

theorem accepts_iff_check (place : String) : s.accepts v ↔ s.check place v = none := by
  rw [check, List.head?_eq_none_iff]
  exact accepts_iff place

/-! ### Groups of constraints -/

/-- A schema finds nothing iff none of its constraints finds anything. -/
theorem violations_eq_nil_iff : violations s place v = [] ↔
    typeViolations s.types place v = [] ∧ allowedViolations s.allowed place v = [] ∧
      numberViolations s.minimum s.maximum place v = [] ∧
      textViolations s.minLength s.maxLength s.pattern place v = [] ∧
      countViolations s.minItems s.maxItems place v = [] ∧ itemViolations s.items place v = [] ∧
      requiredViolations s.required place v = [] ∧ propertyViolations s.properties place v = [] ∧
      closedViolations s.closed (Fields.names s.properties) place v = [] := by
  cases s
  simp only [violations, List.append_eq_nil_iff, and_assoc]

/-- The constraints that one group of keywords writes, where a group is called after one of its keywords. -/
def only (group : String) (s : Schema) : Schema where
  types := if group = "type" then s.types else none
  allowed := if group = "enum" then s.allowed else none
  minimum := if group = "minimum" then s.minimum else none
  maximum := if group = "maximum" then s.maximum else none
  minLength := if group = "minLength" then s.minLength else none
  maxLength := if group = "maxLength" then s.maxLength else none
  pattern := if group = "pattern" then s.pattern else none
  minItems := if group = "minItems" then s.minItems else none
  maxItems := if group = "maxItems" then s.maxItems else none
  items := if group = "items" then s.items else none
  required := if group = "required" then s.required else []
  properties := if group = "properties" then s.properties else []
  closed := if group = "properties" then s.closed else false

theorem only_empty (group : String) : only group {} = {} := by
  simp only [only, ite_self]

section Only

variable (place : String) (v : Value)

/-- A constraint that finds nothing where it is not written is kept by its own group, and by no other one. -/
theorem forall_only_eq_nil {α β : Type} (find : α → List β) {unwritten : α} (h : find unwritten = []) (name : String)
    (written : α) : (∀ group, find (if group = name then written else unwritten) = []) ↔ find written = [] := by
  refine ⟨fun hall => by simpa using hall name, fun hwritten group => ?_⟩
  split
  · exact hwritten
  · exact h

theorem typeViolations_none : typeViolations none place v = [] := rfl

theorem allowedViolations_none : allowedViolations none place v = [] := rfl

theorem numberViolations_split (minimum maximum : Option Double) :
    numberViolations minimum maximum place v = [] ↔
      numberViolations minimum none place v = [] ∧ numberViolations none maximum place v = [] := by
  unfold numberViolations
  cases v.toDouble? with
  | none => exact and_self_iff.symm
  | some x => simp

theorem textViolations_split (minLength maxLength : Option Nat) (pattern : Option Pattern) :
    textViolations minLength maxLength pattern place v = [] ↔
      (textViolations minLength none none place v = [] ∧ textViolations none maxLength none place v = []) ∧
        textViolations none none pattern place v = [] := by
  cases v with
  | string text => simp [textViolations, breachIf_eq_nil, and_assoc]
  | _ => simp [textViolations]

theorem countViolations_split (minItems maxItems : Option Nat) :
    countViolations minItems maxItems place v = [] ↔
      countViolations minItems none place v = [] ∧ countViolations none maxItems place v = [] := by
  cases v with
  | array items => simp [countViolations]
  | _ => simp [countViolations]

theorem numberViolations_only (s : Schema) :
    (∀ group, numberViolations (only group s).minimum (only group s).maximum place v = []) ↔
      numberViolations s.minimum s.maximum place v = [] := by
  have hnone := numberViolations_none place v
  have hminimum := forall_only_eq_nil (numberViolations · none place v) hnone "minimum" s.minimum
  have hmaximum := forall_only_eq_nil (numberViolations none · place v) hnone "maximum" s.maximum
  rw [numberViolations_split, ← hminimum, ← hmaximum, ← forall_and]
  exact forall_congr' fun group => numberViolations_split place v _ _

theorem textViolations_only (s : Schema) :
    (∀ group, textViolations (only group s).minLength (only group s).maxLength (only group s).pattern place v = []) ↔
      textViolations s.minLength s.maxLength s.pattern place v = [] := by
  have hnone := textViolations_none place v
  have hminLength := forall_only_eq_nil (textViolations · none none place v) hnone "minLength" s.minLength
  have hmaxLength := forall_only_eq_nil (textViolations none · none place v) hnone "maxLength" s.maxLength
  have hpattern := forall_only_eq_nil (textViolations none none · place v) hnone "pattern" s.pattern
  rw [textViolations_split, ← hminLength, ← hmaxLength, ← hpattern, ← forall_and, ← forall_and]
  exact forall_congr' fun group => textViolations_split place v _ _ _

theorem countViolations_only (s : Schema) :
    (∀ group, countViolations (only group s).minItems (only group s).maxItems place v = []) ↔
      countViolations s.minItems s.maxItems place v = [] := by
  have hnone := countViolations_none place v
  have hminItems := forall_only_eq_nil (countViolations · none place v) hnone "minItems" s.minItems
  have hmaxItems := forall_only_eq_nil (countViolations none · place v) hnone "maxItems" s.maxItems
  rw [countViolations_split, ← hminItems, ← hmaxItems, ← forall_and]
  exact forall_congr' fun group => countViolations_split place v _ _

theorem closedViolations_only (s : Schema) :
    (∀ group, closedViolations (only group s).closed (Fields.names (only group s).properties) place v = []) ↔
      closedViolations s.closed (Fields.names s.properties) place v = [] := by
  refine ⟨fun hall => hall "properties", fun hwritten group => ?_⟩
  by_cases hgroup : group = "properties"
  · rw [hgroup]
    exact hwritten
  · simp only [only, if_neg hgroup]
    exact closedViolations_false place v _

/-- A schema finds nothing iff no group of its constraints finds anything. -/
theorem violations_eq_nil_iff_only (s : Schema) :
    violations s place v = [] ↔ ∀ group, violations (only group s) place v = [] := by
  -- Every kind of constraint is in one group, and a schema of another group has none of it.
  have htypes := forall_only_eq_nil (typeViolations · place v) (typeViolations_none place v) "type" s.types
  have hallowed := forall_only_eq_nil (allowedViolations · place v) (allowedViolations_none place v) "enum" s.allowed
  have hitems := forall_only_eq_nil (itemViolations · place v) (itemViolations_none place v) "items" s.items
  have hrequired :=
    forall_only_eq_nil (requiredViolations · place v) (requiredViolations_nil place v) "required" s.required
  have hproperties :=
    forall_only_eq_nil (propertyViolations · place v) (propertyViolations_nil place v) "properties" s.properties
  rw [violations_eq_nil_iff, ← htypes, ← hallowed, ← numberViolations_only, ← textViolations_only,
    ← countViolations_only, ← hitems, ← hrequired, ← hproperties, ← closedViolations_only]
  simp only [← forall_and]
  exact forall_congr' fun group => (violations_eq_nil_iff (s := only group s)).symm

end Only

/-! ### Inner schemas -/

/-- The schemas have the same verdicts. -/
def Alike (s t : Schema) : Prop := ∀ v, s.accepts v ↔ t.accepts v

/-- The schemas for a field have the same verdicts. -/
def AlikeFor (p q : String × Schema) : Prop := p.1 = q.1 ∧ Alike p.2 q.2

/-- Equal schemas, except for inner schemas with the same verdicts. -/
inductive Related : Schema → Schema → Prop
  | intro (s : Schema) {i j : Option Schema} {ps qs : List (String × Schema)} : Option.Rel Alike i j →
    List.Forall₂ AlikeFor ps qs → Related { s with items := i, properties := ps } { s with items := j, properties := qs }

theorem Alike.refl (s : Schema) : Alike s s := fun _ => Iff.rfl

theorem Alike.trans {u : Schema} (h : Alike s t) (h' : Alike t u) : Alike s u := fun v => (h v).trans (h' v)

theorem Alike.violations (h : Alike s t) (place : String) (v : Value) :
    s.violations place v = [] ↔ t.violations place v = [] := by
  rw [← accepts_iff, ← accepts_iff]
  exact h v

theorem Alike.items_refl : ∀ i : Option Schema, Option.Rel Alike i i
  | none => .none
  | some s => .some (.refl s)

theorem Alike.properties_refl (ps : List (String × Schema)) : List.Forall₂ AlikeFor ps ps :=
  List.forall₂_same.mpr fun p _ => ⟨rfl, .refl p.2⟩

theorem names_alike {ps qs : List (String × Schema)} (h : List.Forall₂ AlikeFor ps qs) :
    Fields.names ps = Fields.names qs := by
  induction h with
  | nil => rfl
  | cons h _ ih =>
    rw [Fields.names, List.map_cons, h.1]
    exact congrArg _ ih

theorem itemViolations_alike {i j : Option Schema} (h : Option.Rel Alike i j) (place : String) (v : Value) :
    itemViolations i place v = [] ↔ itemViolations j place v = [] := by
  cases h with
  | none => exact Iff.rfl
  | some h =>
    cases v with
    | array values =>
      rw [itemViolations, itemViolations, List.flatMap_eq_nil_iff, List.flatMap_eq_nil_iff]
      exact forall₂_congr fun item _ => h.violations _ item.1
    | _ => exact Iff.rfl

theorem propertyViolations_alike {ps qs : List (String × Schema)} (h : List.Forall₂ AlikeFor ps qs) (place : String)
    (v : Value) : propertyViolations ps place v = [] ↔ propertyViolations qs place v = [] := by
  induction h with
  | nil => exact Iff.rfl
  | @cons p q ps qs h _ ih =>
    obtain ⟨field, s⟩ := p
    obtain ⟨_, t⟩ := q
    obtain ⟨rfl, halike⟩ := h
    cases v with
    | object fields =>
      simp only [propertyViolations, List.append_eq_nil_iff]
      refine and_congr ?_ ih
      cases Fields.get? fields field with
      | none => exact Iff.rfl
      | some w => exact halike.violations _ w
    | _ => exact Iff.rfl

theorem Related.alike (h : Related s t) : Alike s t := by
  intro v
  cases h with
  | intro s hitems hproperties =>
    rw [accepts_iff "", accepts_iff "", violations_eq_nil_iff, violations_eq_nil_iff, itemViolations_alike hitems,
      propertyViolations_alike hproperties, names_alike hproperties]

end DocQuery.Schema
