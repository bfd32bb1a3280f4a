import DocQuery.Filter.Test
import DocQuery.Proofs.Fields
import DocQuery.Proofs.Path
import DocQuery.Proofs.Value.Millis

/-! Values that differ only in the coding of their numbers: an integer here is a double there that is worth the same.
    Recoded values are equal, of one type, and reached by the same paths, and no schema tells them apart. A double is
    read as its integer below `9.2 * 10 ^ 18` only, so larger integers are lost to whoever reads them. -/

namespace DocQuery

/-! ### Doubles of one worth -/

namespace Double

variable {x y : Double} {n : Int64}

theorem isNaN_eq (x : Double) : x.isNaN = (x.worth.region == 0) := by
  cases x with
  | infinite negative => cases negative <;> rfl
  | _ => rfl

theorem isFinite_eq (x : Double) : x.isFinite = (x.worth.region == 2) := by
  cases x with
  | infinite negative => cases negative <;> rfl
  | _ => rfl

theorem units_eq (x : Double) : x.units = x.worth.units := by
  cases x with
  | infinite negative => cases negative <;> rfl
  | _ => rfl

theorem lt_eq (x y : Double) : x.lt y = (x.worth.region != 0 && x.worth.compare y.worth == .lt) := by
  rw [lt, bne, ← isNaN_eq, ← compare_eq, compare]
  cases x.isNaN with
  | true => rfl
  | false =>
    cases y.isNaN with
    | true => rfl
    | false => simp [Int.compare_eq_lt, Bool.beq_eq_decide_eq]

theorem lt_positive (c d : Fin finiteCodes) : (finite false c).lt (.finite false d) = decide (c.val < d.val) := by
  simp only [lt, isNaN, rank, Bool.not_false, Bool.true_and, Bool.false_eq_true, if_false, Int.ofNat_lt]

theorem clampDouble_eq (h : x.isFinite) : clampDouble x = clampInt64 (x.worth.units.tdiv one) := by
  cases x with
  | finite => rfl
  | _ => exact Bool.noConfusion h

theorem isIntegral_of_worth (h : x.worth = Worth.ofInt n.toInt) : x.isIntegral := by
  have hexact := exactInt?_eq_some.mpr h
  unfold exactInt? at hexact
  by_contra hnot
  rw [if_neg hnot] at hexact
  cases hexact

theorem toInt_of_worth (h : x.worth = Worth.ofInt n.toInt) : x.toInt = n.toInt := by
  rw [toInt, units_eq, h, Worth.ofInt, Int.mul_tdiv_cancel _ Worth.one_pos.ne']

/-- Rounding the units of a double changes no more than the sign of a zero. -/
theorem worth_ofIntUnits (negative : Bool) (code : Fin finiteCodes) :
    (ofIntUnits (units (.finite negative code))).worth = worth (.finite negative code) := by
  have hmagnitude : (units (.finite negative code)).natAbs = unitsOf code := by
    rw [units_finite]
    cases negative <;> simp
  have hcode : nearestCode (unitsOf code) 1 < finiteCodes := by
    rw [nearestCode_unitsOf]
    exact code.isLt
  rw [ofIntUnits, worth]
  generalize units (.finite negative code) = u at hmagnitude
  split
  · -- Both zeros come back as the positive one.
    next hzero =>
    rw [hzero]
    rfl
  · rw [hmagnitude, ofUnits, dif_pos hcode, worth, units_finite, Worth.mk.injEq]
    refine ⟨rfl, ?_⟩
    have hback : unitsOf (nearestCode (unitsOf code) 1) = u.natAbs := by rw [nearestCode_unitsOf, hmagnitude]
    simp only [hback, decide_eq_true_eq]
    split <;> omega

theorem finite_of_worth (h : x.worth = Worth.ofInt n.toInt) :
    ∃ negative code, x = .finite negative code ∧ unitsOf code = n.toInt.natAbs * one := by
  cases x with
  | nan => exact absurd (congrArg Worth.region h) (by simp [worth, Worth.ofInt])
  | infinite negative => cases negative <;> exact absurd (congrArg Worth.region h) (by simp [worth, Worth.ofInt])
  | finite negative code =>
    have hunits : units (.finite negative code) = n.toInt * one := congrArg Worth.units h
    refine ⟨negative, code, rfl, ?_⟩
    rw [← Int.natAbs_natCast one, ← Int.natAbs_mul, ← hunits, units_finite]
    cases negative <;> simp

/-- An integer that is worth as much as some double becomes a double of that worth. -/
theorem worth_doubleOfInt (h : x.worth = Worth.ofInt n.toInt) : (doubleOfInt n).worth = x.worth := by
  obtain ⟨negative, code, rfl, -⟩ := finite_of_worth h
  have hunits : units (.finite negative code) = n.toInt * one := congrArg Worth.units h
  rw [doubleOfInt, ofInt, ← hunits, worth_ofIntUnits]

end Double

/-! ### Doubles read as integers -/

/-- Whole doubles of this size are read as integers. -/
def belowIntegerBound (n : Int64) : Bool := n.toInt.natAbs < 92 * 10 ^ 17

section IntegerBound
open Double

def boundCode : Fin finiteCodes := ⟨nearestCode (92 * 10 ^ 17 * one) 1, by decide +kernel⟩

theorem integerBound_eq : Value.integerBound = .finite false boundCode := by decide +kernel

theorem unitsOf_boundCode : unitsOf boundCode = 92 * 10 ^ 17 * one := by decide +kernel

/-- The bound is worth an integer, which is not below it. -/
theorem worth_boundCode : worth (.finite false boundCode) = Worth.ofInt (9200000000000000000 : Int64).toInt := by
  decide +kernel

theorem abs_lt_integerBound {x : Double} {n : Int64} (h : x.worth = Worth.ofInt n.toInt) :
    x.abs.lt Value.integerBound = belowIntegerBound n := by
  obtain ⟨negative, code, rfl, hmagnitude⟩ := finite_of_worth h
  have hlt : code.val < boundCode.val ↔ n.toInt.natAbs < 92 * 10 ^ 17 := by
    rw [← unitsOf_strictMono.lt_iff_lt, unitsOf_boundCode, hmagnitude, Nat.mul_lt_mul_right Double.one_pos]
  rw [integerBound_eq, Double.abs, lt_positive, belowIntegerBound, decide_eq_decide]
  exact hlt

/-- A double that is worth an integer is read as this integer if it is below the bound, and else not at all. -/
theorem toInt?_double {x : Double} {n : Int64} (h : x.worth = Worth.ofInt n.toInt) :
    (Value.double x).toInt? = if belowIntegerBound n then some n else none := by
  rw [Value.toInt?, isIntegral_of_worth h, abs_lt_integerBound h, toInt_of_worth h, Int64.ofInt_toInt, Bool.true_and]

end IntegerBound

/-! ### Lists side by side -/

section SideBySide

variable {α β : Type} {R : α → α → Prop} {xs ys : List α}

theorem getElem?_forall₂ (h : List.Forall₂ R xs ys) (i : Nat) : Option.Rel R xs[i]? ys[i]? := by
  induction h generalizing i with
  | nil => exact .none
  | cons hxy _ ih =>
    cases i with
    | zero => exact .some hxy
    | succ i => exact ih i

theorem any_forall₂ {test : α → Bool} (h : List.Forall₂ R xs ys) (htest : ∀ x y, R x y → test x = test y) :
    xs.any test = ys.any test := by
  induction h with
  | nil => rfl
  | cons hxy _ ih => rw [List.any_cons, List.any_cons, htest _ _ hxy, ih]

theorem anyM_forall₂ {test : α → Checked Bool} (h : List.Forall₂ R xs ys)
    (htest : ∀ x y, R x y → test x = test y) : xs.anyM test = ys.anyM test := by
  induction h with
  | nil => rfl
  | cons hxy _ ih => rw [List.anyM_cons, List.anyM_cons, htest _ _ hxy, ih]

theorem flatMap_zipIdx_forall₂ {f : α × Nat → List β} (h : List.Forall₂ R xs ys)
    (hf : ∀ x y i, R x y → f (x, i) = f (y, i)) (k : Nat) : (xs.zipIdx k).flatMap f = (ys.zipIdx k).flatMap f := by
  induction h generalizing k with
  | nil => rfl
  | cons hxy _ ih => rw [List.zipIdx_cons, List.zipIdx_cons, List.flatMap_cons, List.flatMap_cons, hf _ _ _ hxy, ih]

end SideBySide

/-! ### Recoded values -/

namespace Value

/-- The values differ only in the coding of numbers: an integer on one side and a double that is worth the same on the
    other, and only where the integer is among `P`. -/
inductive Recoded (P : Int64 → Prop) : Value → Value → Prop
  | same {v : Value} : Recoded P v v
  | toDouble {n : Int64} {x : Double} : P n → x.worth = Worth.ofInt n.toInt → Recoded P (.int n) (.double x)
  | toInt {n : Int64} {x : Double} : P n → x.worth = Worth.ofInt n.toInt → Recoded P (.double x) (.int n)
  | array {vs ws : List Value} : List.Forall₂ (Recoded P) vs ws → Recoded P (.array vs) (.array ws)
  | object {fs gs : List (String × Value)} : Fields.names fs = Fields.names gs →
      List.Forall₂ (Recoded P) (fs.map Prod.snd) (gs.map Prod.snd) → Recoded P (.object fs) (.object gs)

variable {P : Int64 → Prop} {v w u : Value} {vs ws : List Value} {fs gs : List (String × Value)}

/-- The fields have the same names in the same order, and recoded values. -/
abbrev RecodedFields (P : Int64 → Prop) (fs gs : List (String × Value)) : Prop :=
  List.Forall₂ (fun f g => f.1 = g.1 ∧ f.2.Recoded P g.2) fs gs

theorem recodedFields_of (hnames : Fields.names fs = Fields.names gs)
    (hvalues : List.Forall₂ (Recoded P) (fs.map Prod.snd) (gs.map Prod.snd)) : RecodedFields P fs gs := by
  induction fs generalizing gs with
  | nil =>
    cases gs with
    | nil => exact .nil
    | cons => cases hnames
  | cons f fs ih =>
    cases gs with
    | nil => cases hnames
    | cons g gs =>
      obtain ⟨hname, hnames⟩ := List.cons.inj hnames
      obtain ⟨hvalue, hvalues⟩ := List.forall₂_cons.mp hvalues
      exact .cons ⟨hname, hvalue⟩ (ih hnames hvalues)

theorem RecodedFields.get? (h : RecodedFields P fs gs) (name : String) :
    Option.Rel (Recoded P) (Fields.get? fs name) (Fields.get? gs name) := Fields.get?_forall₂ h name

namespace Recoded

theorem items : (Value.array vs).Recoded P w → ∃ ws, w = Value.array ws ∧ List.Forall₂ (Recoded P) vs ws
  | .same => ⟨vs, rfl, List.forall₂_same.mpr fun _ _ => .same⟩
  | .array h => ⟨_, rfl, h⟩

theorem fields : (Value.object fs).Recoded P w → ∃ gs, w = Value.object gs ∧ RecodedFields P fs gs
  | .same => ⟨fs, rfl, List.forall₂_same.mpr fun _ _ => ⟨rfl, .same⟩⟩
  | .object hnames hvalues => ⟨_, rfl, recodedFields_of hnames hvalues⟩

theorem compare_eq (h : v.Recoded P w) : v.compare w = .eq := by
  induction v generalizing w with
  | array vs ih =>
    obtain ⟨ws, rfl, hitems⟩ := h.items
    refine compare_array.mpr (((List.forall₂_and_left _ _).mpr ⟨ih, hitems⟩).imp ?_)
    exact fun _ _ hvw => hvw.1 hvw.2
  | object fs ih =>
    obtain ⟨gs, rfl, hfields⟩ := h.fields
    refine compare_object.mpr (((List.forall₂_and_left _ _).mpr ⟨ih, hfields⟩).imp ?_)
    exact fun _ _ hfg => ⟨hfg.2.1, hfg.1 hfg.2.2⟩
  | int n =>
    cases h with
    | same => exact Std.ReflCmp.compare_self
    | toDouble _ hx => exact (compare_eq_eq_of_worth rfl rfl).mpr hx.symm
  | double x =>
    cases h with
    | same => exact Std.ReflCmp.compare_self
    | toInt _ hx => exact (compare_eq_eq_of_worth rfl rfl).mpr hx
  | _ =>
    cases h
    exact Std.ReflCmp.compare_self

theorem compare_left (h : v.Recoded P w) (u : Value) : v.compare u = w.compare u :=
  Std.TransCmp.congr_left h.compare_eq

theorem compare_right (h : v.Recoded P w) (u : Value) : u.compare v = u.compare w :=
  Std.TransCmp.congr_right h.compare_eq

theorem equal_left (h : v.Recoded P w) (u : Value) : v.equal u = w.equal u := by
  rw [equal, equal, h.compare_left]

theorem equal_right (h : v.Recoded P w) (u : Value) : u.equal v = u.equal w := by
  rw [equal, equal, h.compare_right]

/-! ### Types -/

theorem isMissing_eq (h : v.Recoded P w) : v.isMissing = w.isMissing := by cases h <;> rfl

theorem isNullish_eq (h : v.Recoded P w) : v.isNullish = w.isNullish := by cases h <;> rfl

theorem isArray_eq (h : v.Recoded P w) : v.isArray = w.isArray := by cases h <;> rfl

theorem isObject_eq (h : v.Recoded P w) : v.isObject = w.isObject := by cases h <;> rfl

theorem isNumber_eq (h : v.Recoded P w) : v.isNumber = w.isNumber := by cases h <;> rfl

theorem typeName_eq (h : v.Recoded P w) : v.typeName = w.typeName := by
  cases h with
  | toDouble _ hx => rw [typeName, typeName, if_pos (Double.isIntegral_of_worth hx)]
  | toInt _ hx => rw [typeName, typeName, if_pos (Double.isIntegral_of_worth hx)]
  | _ => rfl

theorem describes_eq (h : v.Recoded P w) (t : ValueType) : t.describes v = t.describes w := by
  cases t <;> simp only [ValueType.describes, h.typeName_eq, h.isNumber_eq]

/-! ### Numbers -/

/-- Both are numbers and are read as doubles of one worth, or neither is a number. -/
theorem toDouble?_rel (h : v.Recoded P w) :
    Option.Rel (fun x y => x.worth = y.worth) v.toDouble? w.toDouble? := by
  cases h with
  | same => cases v.toDouble? with
    | none => exact .none
    | some x => exact .some rfl
  | toDouble _ hx => exact .some (Double.worth_doubleOfInt hx)
  | toInt _ hx => exact .some (Double.worth_doubleOfInt hx).symm
  | array => exact .none
  | object => exact .none

/-- Both are read as one integer, or neither is, if only integers below the bound are recoded. -/
theorem toInt?_eq (h : v.Recoded P w) (hP : ∀ n, P n → belowIntegerBound n) : v.toInt? = w.toInt? := by
  cases h with
  | same => rfl
  | toDouble hn hx => rw [toInt?_double hx, if_pos (hP _ hn), toInt?]
  | toInt hn hx => rw [toInt?_double hx, if_pos (hP _ hn), toInt?]
  | array => rfl
  | object => rfl

/-! ### Paths -/

theorem withItems (h : v.Recoded P w) : List.Forall₂ (Recoded P) v.withItems w.withItems := by
  cases h with
  | same => exact List.forall₂_same.mpr fun _ _ => .same
  | array hitems => exact .cons (.array hitems) hitems
  | toDouble hn hx => exact .cons (.toDouble hn hx) .nil
  | toInt hn hx => exact .cons (.toInt hn hx) .nil
  | object hnames hvalues => exact .cons (.object hnames hvalues) .nil

end Recoded

end Value

open Value

namespace Path

variable {P : Int64 → Prop} {v w : Value}

/-- What is reached in the field of an object is recoded if what is reached in its value is. -/
theorem candidates_field {rest : Path} {fs gs : List (String × Value)} (hfields : RecodedFields P fs gs)
    (segment : String)
    (ih : ∀ {v w : Value}, v.Recoded P w → List.Forall₂ (Recoded P) (rest.candidates v) (rest.candidates w)) :
    List.Forall₂ (Recoded P) (candidates (segment :: rest) (.object fs))
      (candidates (segment :: rest) (.object gs)) := by
  have hchild := hfields.get? segment
  rw [candidates, candidates]
  generalize Fields.get? fs segment = child, Fields.get? gs segment = child' at hchild
  cases hchild with
  | none => exact .nil
  | some hchild => exact ih hchild

theorem orGap_recoded {found found' : List Value} (h : List.Forall₂ (Recoded P) found found') :
    List.Forall₂ (Recoded P) (orGap found) (orGap found') := by
  cases h with
  | nil => exact .cons .same .nil
  | cons hfirst hrest => exact .cons hfirst hrest

/-- A path reaches recoded values in recoded values. -/
theorem candidates_recoded (path : Path) (h : v.Recoded P w) :
    List.Forall₂ (Recoded P) (path.candidates v) (path.candidates w) := by
  induction path generalizing v w with
  | nil => exact .cons h .nil
  | cons segment rest ih =>
    cases v with
    | object fs =>
      obtain ⟨gs, rfl, hfields⟩ := h.fields
      exact candidates_field hfields segment ih
    | array vs =>
      obtain ⟨ws, rfl, hitems⟩ := h.items
      -- A position leads into one item, and any other segment into all of them.
      cases hsegment : index? segment with
      | some i =>
        have hitem := getElem?_forall₂ hitems i
        rw [candidates, candidates, hsegment]
        dsimp only
        generalize vs[i]? = item, ws[i]? = item' at hitem
        cases hitem with
        | none => exact .nil
        | some hitem => exact ih hitem
      | none =>
        rw [candidates_items hsegment, candidates_items hsegment]
        refine List.rel_flatMap hitems fun item item' hitem => orGap_recoded ?_
        rw [← hitem.isObject_eq]
        cases item with
        | object fs =>
          obtain ⟨gs, rfl, hfields⟩ := hitem.fields
          exact candidates_field hfields segment ih
        | _ => exact .nil
    | _ => cases h <;> exact .nil

end Path

/-! ### Schemas -/

namespace Schema

variable {P : Int64 → Prop} {v w : Value}

theorem typeViolations_recoded (h : v.Recoded P w) (types : Option (List ValueType)) (place : String) :
    typeViolations types place v = typeViolations types place w := by
  cases types with
  | none => rfl
  | some types => simp only [typeViolations, h.describes_eq]

theorem allowedViolations_recoded (h : v.Recoded P w) (allowed : Option (List Value)) (place : String) :
    allowedViolations allowed place v = allowedViolations allowed place w := by
  cases allowed with
  | none => rfl
  | some values => simp only [allowedViolations, h.equal_right]

theorem numberViolations_recoded (h : v.Recoded P w) (minimum maximum : Option Double) (place : String) :
    numberViolations minimum maximum place v = numberViolations minimum maximum place w := by
  have hnumber := h.toDouble?_rel
  unfold numberViolations
  generalize v.toDouble? = x, w.toDouble? = y at hnumber
  cases hnumber with
  | none => rfl
  | some hworth => simp only [Double.lt_eq, hworth]

theorem textViolations_recoded (h : v.Recoded P w) (minLength maxLength : Option Nat) (p : Option Pattern)
    (place : String) : textViolations minLength maxLength p place v = textViolations minLength maxLength p place w := by
  cases h <;> rfl

theorem countViolations_recoded (h : v.Recoded P w) (minItems maxItems : Option Nat) (place : String) :
    countViolations minItems maxItems place v = countViolations minItems maxItems place w := by
  cases h with
  | array hitems => rw [countViolations, countViolations, hitems.length_eq]
  | _ => rfl

theorem requiredViolations_recoded (h : v.Recoded P w) (required : List String) (place : String) :
    requiredViolations required place v = requiredViolations required place w := by
  cases h with
  | object hnames =>
    simp only [requiredViolations, Fields.contains_eq, hnames]
  | _ => rfl

theorem closedViolations_recoded (h : v.Recoded P w) (closed : Bool) (properties : List String) (place : String) :
    closedViolations closed properties place v = closedViolations closed properties place w := by
  cases h with
  | object hnames => rw [closedViolations, closedViolations, hnames]
  | _ => rfl

mutual

/-- No schema tells recoded values apart. -/
theorem violations_recoded : ∀ (schema : Schema) (place : String) {v w : Value}, v.Recoded P w →
    violations schema place v = violations schema place w
  | { types, allowed, minimum, maximum, minLength, maxLength, pattern, minItems, maxItems, items, required, properties,
      closed }, place, v, w, h => by
    rw [violations, violations, typeViolations_recoded h, allowedViolations_recoded h, numberViolations_recoded h,
      textViolations_recoded h, countViolations_recoded h, itemViolations_recoded items place h,
      requiredViolations_recoded h, propertyViolations_recoded properties place h, closedViolations_recoded h]

theorem itemViolations_recoded : ∀ (items : Option Schema) (place : String) {v w : Value}, v.Recoded P w →
    itemViolations items place v = itemViolations items place w
  | none, _, v, w, h => by cases h <;> rfl
  | some schema, place, v, w, h => by
    cases h with
    | array hitems =>
      rw [itemViolations, itemViolations]
      exact flatMap_zipIdx_forall₂ hitems (fun v w i h => violations_recoded schema _ h) 0
    | _ => rfl

theorem propertyViolations_recoded : ∀ (properties : List (String × Schema)) (place : String) {v w : Value},
    v.Recoded P w → propertyViolations properties place v = propertyViolations properties place w
  | [], _, v, w, h => by cases h <;> rfl
  | (field, schema) :: rest, place, v, w, h => by
    cases v with
    | object fs =>
      obtain ⟨gs, rfl, hfields⟩ := h.fields
      rw [propertyViolations, propertyViolations, propertyViolations_recoded rest place h]
      congr 1
      have hchild := hfields.get? field
      generalize Fields.get? fs field = child, Fields.get? gs field = child' at hchild
      cases hchild with
      | none => rfl
      | some hchild => exact violations_recoded schema _ hchild
    | _ => cases h <;> rfl

end

end Schema

end DocQuery
