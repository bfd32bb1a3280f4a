import DocQuery.Proofs.Double.Nearest
import DocQuery.Proofs.Filter.Algebra
import DocQuery.Proofs.Value.Recoded

/-! Bounds of numbers in schemas. A bound and the numbers that it is held against are rounded to doubles. Rounding keeps
    the order, so what a bound rejects does lie beyond it, but numbers beyond a bound that are rounded to the same
    double pass. This holds on all levels of a schema: a schema on an inner level rejects a value iff the schema alone
    rejects one of the values on that level. -/

namespace DocQuery

/-! ### Rounded numbers -/

namespace Value

/-- A number other than NaN. -/
def isQuantity (v : Value) : Bool := v.toDouble?.any (!·.isNaN)

/-- Are the numbers rounded to equal doubles? -/
def roundsLike (v w : Value) : Bool :=
  match v.toDouble?, w.toDouble? with
  | some x, some y => x.compare y == .eq
  | _, _ => false

end Value

namespace Worth

/-- A place on the scale of numbers, and the rank of the nearest double. -/
inductive Rounds : Worth → Int → Prop
  | minusInfinity : Rounds ⟨1, 0⟩ (-finiteCodes)
  | finite (units : Int) : Rounds ⟨2, units⟩ (Double.ofIntUnits units).rank
  | infinity : Rounds ⟨3, 0⟩ finiteCodes

theorem Rounds.bounds {a : Worth} {r : Int} (h : a.Rounds r) : -(finiteCodes : Int) ≤ r ∧ r ≤ finiteCodes := by
  have hcodes : (0 : Int) ≤ finiteCodes := Int.natCast_nonneg _
  cases h with
  | minusInfinity => omega
  | finite units =>
    rw [Double.rank_ofIntUnits]
    split <;> omega
  | infinity => omega

/-- Rounding keeps the order. -/
theorem Rounds.mono {a b : Worth} {r s : Int} (ha : a.Rounds r) (hb : b.Rounds s) (h : a.compare b ≠ .gt) : r ≤ s := by
  have hr := ha.bounds
  have hs := hb.bounds
  cases ha with
  | minusInfinity => exact hs.1
  | finite m =>
    cases hb with
    | minusInfinity => exact absurd rfl h
    | finite n =>
      rw [compare_finite, Int.compare_ne_gt] at h
      exact Double.rank_ofIntUnits_mono h
    | infinity => exact hr.2
  | infinity =>
    cases hb with
    | minusInfinity | finite => exact absurd rfl h
    | infinity => exact Int.le_refl _

end Worth

namespace Double

/-- The units of a double are rounded to a double of the same rank. -/
theorem rank_ofIntUnits_units (negative : Bool) (code : Fin finiteCodes) :
    rank (ofIntUnits (units (.finite negative code))) = rank (.finite negative code) := by
  have hworth := worth_ofIntUnits negative code
  have hcompare : compare (ofIntUnits (units (.finite negative code))) (.finite negative code) = .eq := by
    rw [compare_eq, hworth]
    exact Std.ReflCmp.compare_self
  rw [compare, isNaN_eq, hworth, ← isNaN_eq] at hcompare
  exact Int.compare_eq_eq.mp hcompare

theorem rounds_worth {x : Double} (h : x.isNaN = false) : x.worth.Rounds x.rank := by
  cases x with
  | nan => exact nomatch h
  | infinite negative =>
    cases negative with
    | true => exact .minusInfinity
    | false => exact .infinity
  | finite negative code =>
    rw [← rank_ofIntUnits_units]
    exact .finite _

theorem compare_eq_eq_iff {x y : Double} (hx : x.isNaN = false) (hy : y.isNaN = false) :
    x.compare y = .eq ↔ x.rank = y.rank := by
  rw [compare, hx, hy]
  exact Int.compare_eq_eq

theorem lt_iff {x y : Double} (hx : x.isNaN = false) (hy : y.isNaN = false) : x.lt y ↔ x.rank < y.rank := by
  rw [lt, hx, hy]
  exact decide_eq_true_iff

end Double

namespace Value

variable {v w b : Value} {x y : Double}

theorem isQuantity_of_toDouble? (hx : v.toDouble? = some x) : v.isQuantity = !x.isNaN := by
  rw [isQuantity, hx, Option.any_some]

theorem isQuantity_of_toDouble?_none (hx : v.toDouble? = none) : v.isQuantity = false := by
  rw [isQuantity, hx, Option.any_none]

theorem exists_toDouble? (h : v.isQuantity) : ∃ x, v.toDouble? = some x ∧ x.isNaN = false := by
  unfold isQuantity at h
  cases hx : v.toDouble? with
  | none => exact nomatch hx ▸ h
  | some x =>
    rw [hx, Option.any_some, Bool.not_eq_true'] at h
    exact ⟨x, rfl, h⟩

theorem roundsLike_comm (v w : Value) : v.roundsLike w = w.roundsLike v := by
  have hturned : ∀ x y : Double, (x.compare y == .eq) = (y.compare x == .eq) := fun x y => by
    have hswap : y.compare x = (x.compare y).swap := compare_swap (.double x) (.double y)
    rw [hswap]
    cases x.compare y <;> rfl
  unfold roundsLike
  cases v.toDouble? with
  | none => cases w.toDouble? <;> rfl
  | some x =>
    cases w.toDouble? with
    | none => rfl
    | some y => exact hturned x y

/-- The double of a quantity is the one next to it. -/
theorem exists_rounds (hx : v.toDouble? = some x) (hnan : x.isNaN = false) :
    ∃ a, v.worth? = some a ∧ a.Rounds x.rank := by
  cases v with
  | int n =>
    obtain rfl := Option.some.inj hx
    exact ⟨_, rfl, .finite _⟩
  | double x =>
    obtain rfl := Option.some.inj hx
    exact ⟨_, rfl, Double.rounds_worth hnan⟩
  | _ => exact nomatch hx

/-- The double of a quantity lies below another one iff the quantity does and is not rounded like the other one. -/
theorem lt_iff_compare (hx : v.toDouble? = some x) (hy : w.toDouble? = some y) (hxnan : x.isNaN = false)
    (hynan : y.isNaN = false) : x.lt y = (v.compare w == .lt && !v.roundsLike w) := by
  obtain ⟨a, ha, har⟩ := exists_rounds hx hxnan
  obtain ⟨b, hb, hbs⟩ := exists_rounds hy hynan
  -- Rounding may make two quantities equal, but never turns them around.
  have hle : v.compare w ≠ .gt → x.rank ≤ y.rank := fun h => har.mono hbs (compare_of_worth ha hb ▸ h)
  have hge : v.compare w ≠ .lt → y.rank ≤ x.rank := fun h => by
    refine hbs.mono har fun hgt => h ?_
    rw [compare_swap w v, compare_of_worth hb ha, hgt]
    rfl
  have hlike : v.roundsLike w ↔ x.rank = y.rank := by
    rw [roundsLike, hx, hy, beq_iff_eq]
    exact Double.compare_eq_eq_iff hxnan hynan
  rw [Bool.eq_iff_iff, Double.lt_iff hxnan hynan, Bool.and_eq_true, beq_iff_eq, Bool.not_eq_true', ← Bool.not_eq_true,
    hlike]
  constructor
  · intro h
    refine ⟨?_, h.ne⟩
    by_contra hnot
    exact absurd (hge hnot) (Int.not_le.mpr h)
  · rintro ⟨hlt, hne⟩
    exact lt_of_le_of_ne (hle (by rw [hlt]; decide)) hne

end Value

/-! ### Levels of schemas -/

namespace Schema

variable {schema v : Value} {s : Schema}

section Unconstrained

variable (place : String) (v : Value)

theorem numberViolations_none : numberViolations none none place v = [] := by
  unfold numberViolations
  split <;> rfl

theorem textViolations_none : textViolations none none none place v = [] := by
  cases v <;> rfl

theorem countViolations_none : countViolations none none place v = [] := by
  cases v <;> rfl

theorem itemViolations_none : itemViolations none place v = [] := by
  cases v <;> rfl

theorem requiredViolations_nil : requiredViolations [] place v = [] := by
  cases v <;> rfl

theorem propertyViolations_nil : propertyViolations [] place v = [] := by
  cases v <;> rfl

theorem closedViolations_false (properties : List String) : closedViolations false properties place v = [] := by
  cases v with
  | object fields => exact List.flatMap_eq_nil_iff.mpr fun _ _ => rfl
  | _ => rfl

/-- A schema with bounds alone finds what breaks the bounds. -/
theorem violations_bounds (minimum maximum : Option Double) :
    violations { minimum, maximum } place v = numberViolations minimum maximum place v := by
  rw [violations, textViolations_none, countViolations_none, itemViolations_none, requiredViolations_nil,
    propertyViolations_nil, closedViolations_false]
  simp only [typeViolations, allowedViolations, List.nil_append, List.append_nil]

/-- A schema of inner schemas alone finds what they find. -/
theorem violations_inner (items : Option Schema) (properties : List (String × Schema)) :
    violations { items, properties } place v =
      itemViolations items place v ++ propertyViolations properties place v := by
  rw [violations, numberViolations_none, textViolations_none, countViolations_none, requiredViolations_nil,
    closedViolations_false]
  simp only [typeViolations, allowedViolations, List.nil_append, List.append_nil]

end Unconstrained

/-- A step from a schema to a schema inside it, and from a value to the values that the inner one is for. -/
inductive Level where
  | property (field : String)
  | items

namespace Level

/-- The value that writes a schema with nothing but the inner one. -/
def around (schema : Value) : Level → Value
  | property field => .object [("properties", .object [(field, schema)])]
  | items => .object [("items", schema)]

/-- The schema with nothing but the inner one. -/
def lift (s : Schema) : Level → Schema
  | property field => { properties := [(field, s)] }
  | items => { items := some s }

/-- The values that the inner schema is for. -/
def children : Level → Value → List Value
  | property field, .object fields => (Fields.get? fields field).toList
  | items, .array values => values
  | _, _ => []

theorem ofValue_around (h : ofValue schema = .ok s) (level : Level) :
    ofValue (level.around schema) = .ok (level.lift s) := by
  cases level with
  | property field =>
    have hproperties : propertiesOf (.object [(field, schema)]) = .ok [(field, s)] := by
      rw [propertiesOf, ofFields, ofFields, h]
      rfl
    rw [around, ofValue, ofKeywords, hproperties]
    rfl
  | items =>
    rw [around, ofValue, ofKeywords, h]
    rfl

/-- A schema on an inner level finds nothing iff it finds nothing in the values on that level. -/
theorem violations_lift {Q : Value → Prop} (h : ∀ place v, violations s place v = [] ↔ Q v) (level : Level)
    (place : String) (v : Value) : violations (level.lift s) place v = [] ↔ ∀ w ∈ level.children v, Q w := by
  cases level with
  | property field =>
    rw [lift, violations_inner, itemViolations_none, List.nil_append]
    cases v with
    | object fields =>
      rw [propertyViolations, propertyViolations_nil, List.append_nil, children]
      cases Fields.get? fields field with
      | none => exact iff_of_true rfl (List.forall_mem_nil _)
      | some w =>
        rw [Option.toList_some, List.forall_mem_singleton]
        exact h _ w
    | _ => exact iff_of_true rfl (List.forall_mem_nil _)
  | items =>
    rw [lift, violations_inner, propertyViolations_nil, List.append_nil]
    cases v with
    | array values =>
      have hitems : ∀ item ∈ values.zipIdx, violations s (within place (toString item.2)) item.1 = [] ↔ Q item.1 :=
        fun item _ => h _ item.1
      rw [itemViolations, List.flatMap_eq_nil_iff, children, forall₂_congr hitems, ← List.forall_mem_map,
        List.zipIdx_map_fst]
    | _ => exact iff_of_true rfl (List.forall_mem_nil _)

end Level

/-- The values on the innermost of some levels. -/
def inside : List Level → Value → List Value
  | [], v => [v]
  | level :: rest, v => (level.children v).flatMap (inside rest)

/-- The value that writes a schema on the innermost of some levels. -/
def nested (schema : Value) (levels : List Level) : Value := levels.foldr (fun level inner => level.around inner) schema

theorem ofValue_nested (h : ofValue schema = .ok s) : ∀ levels,
    ofValue (nested schema levels) = .ok (levels.foldr (fun level inner => level.lift inner) s)
  | [] => h
  | level :: rest => Level.ofValue_around (ofValue_nested h rest) level

theorem violations_nested {Q : Value → Prop} (h : ∀ place v, violations s place v = [] ↔ Q v) :
    ∀ (levels : List Level) (place : String) (v : Value),
      violations (levels.foldr (fun level inner => level.lift inner) s) place v = [] ↔ ∀ w ∈ inside levels v, Q w
  | [], place, v => by
    rw [inside, List.forall_mem_singleton]
    exact h place v
  | level :: rest, place, v => by
    have hrest := Level.violations_lift (violations_nested h rest) level place v
    rw [List.foldr_cons, hrest, inside, List.forall_mem_flatMap]

/-! ### Bounds -/

/-- The keywords for bounds, and on which side of a bound a number is rejected. -/
def boundKeywords : List (String × Ordering) := [("minimum", .lt), ("maximum", .gt)]

variable {keyword : String} {side : Ordering} {b : Value}

theorem ne_eq_of_boundKeywords (h : (keyword, side) ∈ boundKeywords) : side ≠ .eq := by
  rintro rfl
  simp [boundKeywords] at h

/-- Is the value rejected by the bound? -/
def breaks (side : Ordering) (b v : Value) : Bool := v.isQuantity && v.compare b == side && !v.roundsLike b

section Breaks

variable {v : Value} {x y : Double}

theorem breaks_of_not_isQuantity (h : v.isQuantity = false) : breaks side b v = false := by
  rw [breaks, h, Bool.false_and, Bool.false_and]

theorem breaks_lt (hx : v.toDouble? = some x) (hy : b.toDouble? = some y) (hynan : y.isNaN = false) :
    breaks .lt b v = x.lt y := by
  have hquantity := Value.isQuantity_of_toDouble? hx
  cases hxnan : x.isNaN with
  | true =>
    rw [hxnan, Bool.not_true] at hquantity
    rw [breaks_of_not_isQuantity hquantity, Double.lt, hxnan, Bool.not_true, Bool.false_and, Bool.false_and]
  | false =>
    rw [hxnan, Bool.not_false] at hquantity
    rw [breaks, hquantity, Bool.true_and, Value.lt_iff_compare hx hy hxnan hynan]

theorem breaks_gt (hx : v.toDouble? = some x) (hy : b.toDouble? = some y) (hynan : y.isNaN = false) :
    breaks .gt b v = y.lt x := by
  have hquantity := Value.isQuantity_of_toDouble? hx
  -- NaN is no quantity, and no bound is broken by it: every test of doubles fails.
  cases hxnan : x.isNaN with
  | true =>
    rw [hxnan, Bool.not_true] at hquantity
    rw [breaks_of_not_isQuantity hquantity, Double.lt, hxnan, Bool.not_true, Bool.and_false, Bool.false_and]
  | false =>
    rw [hxnan, Bool.not_false] at hquantity
    have hturned : (b.compare v == .lt) = (v.compare b == .gt) := by
      rw [Value.compare_swap v b]
      cases v.compare b <;> rfl
    rw [breaks, hquantity, Bool.true_and, Value.lt_iff_compare hy hx hynan hxnan, hturned, Value.roundsLike_comm]

end Breaks

theorem breachIf_eq_nil {broken : Bool} {place : String} {breach : Breach} :
    breachIf broken place breach = [] ↔ broken = false := by
  cases broken <;> simp [breachIf]

/-- A bound is read, and finds nothing in the values that do not break it. -/
theorem exists_bounded (h : (keyword, side) ∈ boundKeywords) (hb : b.isQuantity) :
    ∃ s, ofValue (.object [(keyword, b)]) = .ok s ∧
      ∀ place v, violations s place v = [] ↔ breaks side b v = false := by
  obtain ⟨y, hy, hynan⟩ := Value.exists_toDouble? hb
  simp only [boundKeywords, List.mem_cons, Prod.mk.injEq, List.not_mem_nil, or_false] at h
  rcases h with ⟨rfl, rfl⟩ | ⟨rfl, rfl⟩
  · have hnumber : numberOf "minimum" b = .ok y := by rw [numberOf, hy]
    refine ⟨{ minimum := some y }, by rw [ofValue, ofKeywords, hnumber]; rfl, fun place v => ?_⟩
    rw [violations_bounds, numberViolations]
    cases hx : v.toDouble? with
    | none => exact iff_of_true rfl (breaks_of_not_isQuantity (Value.isQuantity_of_toDouble?_none hx))
    | some x => simp [breaks_lt hx hy hynan, breachIf_eq_nil]
  · have hnumber : numberOf "maximum" b = .ok y := by rw [numberOf, hy]
    refine ⟨{ maximum := some y }, by rw [ofValue, ofKeywords, hnumber]; rfl, fun place v => ?_⟩
    rw [violations_bounds, numberViolations]
    cases hx : v.toDouble? with
    | none => exact iff_of_true rfl (breaks_of_not_isQuantity (Value.isQuantity_of_toDouble?_none hx))
    | some x => simp [breaks_gt hx hy hynan, breachIf_eq_nil]

end Schema

/-! ### Queries -/

namespace Query

open Schema

variable {keyword : String} {side : Ordering} {v b : Value}

/-- The filter for documents with a bound on some levels. -/
def bounded (keyword : String) (b : Value) (levels : List Level) : Value :=
  .object [("$jsonSchema", nested (.object [(keyword, b)]) levels)]

theorem testValue_bounded (search : Option TextSearch) (h : (keyword, side) ∈ boundKeywords) (hb : b.isQuantity)
    (levels : List Level) (d : Value) :
    testValue (bounded keyword b levels) search d = .ok !(inside levels d).any (breaks side b) := by
  obtain ⟨s, hs, hfinds⟩ := exists_bounded h hb
  have hread : Filter.ofValue (bounded keyword b levels) =
      .all [.conforms (levels.foldr (fun level inner => level.lift inner) s)] := by
    have hoperator : DocumentOperator.ofName? "$jsonSchema" = some .jsonSchema := rfl
    rw [bounded, Filter.ofValue, Filter.ofFields, Filter.ofFields, hoperator, ofValue_nested hs]
    rfl
  have haccepts : (levels.foldr (fun level inner => level.lift inner) s).accepts d =
      !(inside levels d).any (breaks side b) := by
    rw [Bool.eq_iff_iff, accepts, List.isEmpty_iff, violations_nested hfinds, Bool.not_eq_true', List.any_eq_false]
    simp only [Bool.not_eq_true]
  rw [testValue_eq, hread, (Filter.Equivalent.all_singleton _).check, (Filter.Equivalent.all_singleton _).test,
    Filter.check, Filter.test, haccepts]
  rfl

/-- A bound rejects a document iff some number on its level lies beyond the bound and is rounded to another double.
    So a number is held against a bound exactly, on all levels, iff both are equal or are rounded differently. -/
theorem testValue_bounded_exact_iff (search : Option TextSearch) (hb : b.isQuantity) (hv : v.isQuantity) :
    (∀ keyword side, (keyword, side) ∈ boundKeywords → ∀ levels d, testValue (bounded keyword b levels) search d =
      .ok !(inside levels d).any fun w => w.isQuantity && w.compare b == side && !w.roundsLike b) ∧
    ((∀ keyword side, (keyword, side) ∈ boundKeywords → ∀ levels d, inside levels d = [v] →
      testValue (bounded keyword b levels) search d = .ok (v.compare b != side)) ↔
        (v.roundsLike b → v.compare b = .eq)) := by
  have hanswer : ∀ {keyword side}, (keyword, side) ∈ boundKeywords → ∀ {levels d}, inside levels d = [v] →
      testValue (bounded keyword b levels) search d = .ok !(v.compare b == side && !v.roundsLike b) := by
    intro keyword side h levels d hinside
    rw [testValue_bounded search h hb, hinside, List.any_cons, List.any_nil, Bool.or_false, breaks, hv, Bool.true_and]
  refine ⟨fun keyword side h levels d => testValue_bounded search h hb levels d, fun hexact hlike => ?_,
    fun hlike keyword side h levels d hinside => ?_⟩
  · -- As `v` is rounded like the bound it is rejected by neither keyword.
    have hinside : inside [.property "n"] (.object [("n", v)]) = [v] := rfl
    have hpasses : ∀ keyword side, (keyword, side) ∈ boundKeywords → v.compare b ≠ side := by
      intro keyword side h
      have hboth := (hanswer h hinside).symm.trans (hexact keyword side h _ _ hinside)
      rw [hlike, Bool.not_true, Bool.and_false, Except.ok.injEq, eq_comm, Bool.not_false, bne_iff_ne] at hboth
      exact hboth
    have hmin := hpasses "minimum" .lt (by simp [boundKeywords])
    have hmax := hpasses "maximum" .gt (by simp [boundKeywords])
    cases hcompare : v.compare b with
    | lt => exact absurd hcompare hmin
    | eq => rfl
    | gt => exact absurd hcompare hmax
  · rw [hanswer h hinside]
    cases hrounded : v.roundsLike b with
    | false => rw [Bool.not_false, Bool.and_true, bne]
    | true =>
      rw [hlike hrounded, Bool.not_true, Bool.and_false, Bool.not_false,
        bne_iff_ne.mpr (ne_eq_of_boundKeywords h).symm]

/-- The price of an item is held against a bound that is a double. -/
theorem testValue_bounded_exact_prices :
    let v := Value.int 9007199254740991
    let b := Value.double (doubleOfInt 9007199254740992)
    let levels := [.property "items", .items, .property "price"]
    let d := Value.object [("items", .array [.object [("price", v)]])]
    (b.isQuantity ∧ v.isQuantity ∧ inside levels d = [v] ∧ v.roundsLike b = false) ∧
      testValue (bounded "minimum" b levels) none d = .ok false := by
  intro v b levels d
  have hb : b.isQuantity := by decide +kernel
  have hv : v.isQuantity := by decide +kernel
  have hlike : v.roundsLike b = false := by decide +kernel
  have hbelow : v.compare b = .lt := by decide +kernel
  have hexact := (testValue_bounded_exact_iff none hb hv).2.mpr fun h => nomatch hlike ▸ h
  have hanswer := hexact "minimum" .lt (by simp [boundKeywords]) levels d rfl
  rw [hbelow] at hanswer
  exact ⟨⟨hb, hv, rfl, hlike⟩, hanswer⟩

/-- The integer `2 ^ 53` is below `2 ^ 53 + 1`, which is rounded to it. -/
theorem not_testValue_bounded_exact : ¬∀ v b : Value, v.isQuantity → b.isQuantity →
    testValue (bounded "minimum" b [.property "n"]) none (.object [("n", v)]) = .ok (v.compare b != .lt) := by
  intro h
  have hexact := h (.int 9007199254740992) (.int 9007199254740993) (by decide +kernel) (by decide +kernel)
  have hminimum : ("minimum", .lt) ∈ boundKeywords := by simp [boundKeywords]
  rw [testValue_bounded none hminimum (by decide +kernel), Except.ok.injEq] at hexact
  exact absurd hexact (by decide +kernel)

end Query

end DocQuery
