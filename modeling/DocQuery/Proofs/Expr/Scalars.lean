import DocQuery.Expr
import DocQuery.Proofs.Expr.Discipline

/-! Operators that come to scalars. Arithmetic, comparisons, conversions and most operators on strings and dates
    give a scalar or a fault of their own whatever values they are applied to, so they respect every discipline. -/

namespace DocQuery

open Checked

/-- A computation whose faults are those of operators. -/
def Operates {α : Type} (x : Checked α) : Prop := FailsWith (·.isOperational) x

/-- A computation of an operator that gives a scalar. -/
def GivesScalar (x : Checked Value) : Prop := Yields (·.isScalar) (·.isOperational) x

/-- The faults of operators are in every discipline. -/
theorem Operates.reports {α : Type} {x : Checked α} {D : Discipline} (h : Operates x) : FailsWith D.Reports x :=
  h.weaken fun _ he => D.reports he

theorem Operates.then {α : Type} {x : Checked α} {f : α → Checked Value} (h : Operates x)
    (hf : ∀ a, GivesScalar (f a)) : GivesScalar (x >>= f) :=
  h.bind fun a _ => hf a

namespace Discipline.Respects

variable {D : Discipline} {operator : String}

theorem variadic_scalar {f : List Value → Checked Value} (hf : ∀ vs, GivesScalar (f vs)) :
    D.Respects (.variadic f) := .variadic fun vs _ => gives_of_scalar (hf vs)

theorem unary_scalar {f : Value → Checked Value} (hf : ∀ v, GivesScalar (f v)) :
    D.Respects (.unary operator f) := .unary fun v _ => gives_of_scalar (hf v)

theorem binary_scalar {f : Value → Value → Checked Value} (hf : ∀ a b, GivesScalar (f a b)) :
    D.Respects (.binary operator f) := .binary fun a b _ _ => gives_of_scalar (hf a b)

theorem ternary_scalar {f : Value → Value → Value → Checked Value} (hf : ∀ a b c, GivesScalar (f a b c)) :
    D.Respects (.ternary operator f) := .ternary fun a b c _ _ _ => gives_of_scalar (hf a b c)

theorem ranged_scalar {more : Nat} {f : Value → Value → List Value → Checked Value}
    (hf : ∀ a b rest, GivesScalar (f a b rest)) : D.Respects (.ranged operator more f) :=
  .ranged fun a b rest _ _ _ => gives_of_scalar (hf a b rest)

end Discipline.Respects

/-! ### Expected types -/

namespace Value

variable {operator wanted : String} {v : Value}

theorem operates_expectDouble : Operates (v.expectDouble operator) := by
  unfold expectDouble
  split
  · trivial
  · exact rfl

theorem operates_expectInt : Operates (v.expectInt operator) := by
  unfold expectInt
  split
  · trivial
  · exact rfl

theorem operates_expectString : Operates (v.expectString operator wanted) := by
  unfold expectString
  split
  · trivial
  · exact rfl

end Value

open Value

/-! ### Arithmetic -/

namespace Number

variable {operator : String} {a b v : Value} {vs : List Value}

theorem operates_dateAmong : ∀ (vs : List Value) (found : Option Instant), Operates (dateAmong found vs)
  | [], _ => trivial
  | v :: rest, found => by
    cases v with
    | date t =>
      rw [dateAmong]
      split
      · exact rfl
      · exact operates_dateAmong rest (some t)
    | int | double => exact operates_dateAmong rest found
    | _ => exact rfl

theorem operates_millisOf : Operates (millisOf operator v) := by
  unfold millisOf
  split
  · trivial
  · refine operates_expectDouble.bind fun x _ => ?_
    dsimp only
    split
    · trivial
    · exact rfl

theorem givesScalar_shift {t : Instant} {millis : Int} {forward : Bool} :
    GivesScalar (shift operator t millis forward) := by
  unfold shift
  split <;> exact rfl

theorem givesScalar_add : GivesScalar (add vs) := by
  unfold add
  split
  · exact rfl
  · refine (operates_dateAmong vs none).then fun found => ?_
    split
    · exact rfl
    · exact rfl
    · exact givesScalar_shift
    · exact operates_millisOf.then fun _ => givesScalar_shift

theorem givesScalar_subtract : GivesScalar (subtract a b) := by
  unfold subtract
  split
  · exact rfl
  · split
    · exact rfl
    · exact givesScalar_shift
    · exact operates_millisOf.then fun _ => givesScalar_shift
    · split <;> exact rfl
    · exact operates_expectDouble.then fun _ => operates_expectDouble.then fun _ => rfl

theorem givesScalar_multiply : GivesScalar (multiply vs) := by
  unfold multiply
  split
  · exact rfl
  · split
    · exact rfl
    · split <;> exact rfl

theorem givesScalar_divide : GivesScalar (divide a b) := by
  unfold divide
  split
  · exact rfl
  · refine operates_expectDouble.then fun x => operates_expectDouble.then fun y => ?_
    split <;> exact rfl

theorem givesScalar_modulo : GivesScalar (modulo a b) := by
  unfold modulo
  split
  · exact rfl
  · split
    · split <;> exact rfl
    · refine operates_expectDouble.then fun x => operates_expectDouble.then fun y => ?_
      split <;> exact rfl

theorem givesScalar_pow : GivesScalar (pow a b) := by
  unfold pow
  split
  · exact rfl
  · refine operates_expectDouble.then fun x => operates_expectDouble.then fun y => ?_
    split
    · exact rfl
    · split
      · split <;> exact rfl
      · exact rfl

theorem givesScalar_sqrt : GivesScalar (sqrt v) := by
  unfold sqrt
  split
  · exact rfl
  · refine operates_expectDouble.then fun x => ?_
    split <;> exact rfl

theorem givesScalar_abs : GivesScalar (abs v) := by
  unfold abs
  split
  · exact rfl
  · exact rfl
  · split <;> exact rfl
  · exact rfl
  · exact rfl

theorem givesScalar_toWhole {f : Double → Double} : GivesScalar (toWhole operator f v) := by
  unfold toWhole
  split <;> exact rfl

theorem givesScalar_toPlaces {f : Double → Double} : GivesScalar (toPlaces operator f vs) := by
  unfold toPlaces
  split
  · exact rfl
  · extract_lets round check
    have hround : ∀ places, GivesScalar (round places) := by
      intro places
      dsimp only [round]
      split
      · exact rfl
      · split
        · split <;> exact rfl
        · split <;> exact rfl
        · exact rfl
    split
    · exact rfl
    · dsimp only [check]
      split
      · exact rfl
      · split
        · exact operates_expectInt.then hround
        · exact hround 0

theorem givesScalar_exp : GivesScalar (exp v) := by
  unfold exp
  split
  · exact rfl
  · exact operates_expectDouble.then fun _ => rfl

theorem givesScalar_logarithm {f : Double → Double} : GivesScalar (logarithm operator f v) := by
  unfold logarithm
  split
  · exact rfl
  · refine operates_expectDouble.then fun x => ?_
    split <;> exact rfl

theorem respects_operators {D : Discipline} : ∀ op ∈ operators, D.Respects op.2 := by
  simp only [operators, List.forall_mem_cons]
  exact ⟨.variadic_scalar fun _ => givesScalar_add, .binary_scalar fun _ _ => givesScalar_subtract,
    .variadic_scalar fun _ => givesScalar_multiply, .binary_scalar fun _ _ => givesScalar_divide,
    .binary_scalar fun _ _ => givesScalar_modulo, .binary_scalar fun _ _ => givesScalar_pow,
    .unary_scalar fun _ => givesScalar_sqrt, .unary_scalar fun _ => givesScalar_abs,
    .unary_scalar fun _ => givesScalar_toWhole, .unary_scalar fun _ => givesScalar_toWhole,
    .variadic_scalar fun _ => givesScalar_toPlaces, .variadic_scalar fun _ => givesScalar_toPlaces,
    .unary_scalar fun _ => givesScalar_exp, .unary_scalar fun _ => givesScalar_logarithm,
    .unary_scalar fun _ => givesScalar_logarithm, List.forall_mem_nil _⟩

end Number

/-! ### Comparisons -/

namespace Relation

theorem givesScalar_isIn {v list : Value} : GivesScalar (isIn v list) := by
  unfold isIn
  split <;> exact rfl

theorem respects_operators {D : Discipline} : ∀ op ∈ operators, D.Respects op.2 := by
  have hcompare {f : Ordering → Value} {operator : String} (hf : ∀ o, (f o).isScalar) :
      D.Respects (comparing operator f) := .binary_scalar fun a b => hf (a.compare b)
  simp only [operators, List.forall_mem_cons]
  exact ⟨hcompare fun _ => rfl, hcompare fun _ => rfl, hcompare fun _ => rfl, hcompare fun _ => rfl,
    hcompare fun _ => rfl, hcompare fun _ => rfl, hcompare fun _ => rfl, .binary_scalar fun _ _ => givesScalar_isIn,
    List.forall_mem_nil _⟩

end Relation

/-! ### Conversions -/

namespace Conversion

variable {operator : String} {v : Value}

theorem givesScalar_toInt : GivesScalar (toInt operator v) := by
  unfold toInt
  split
  · exact rfl
  · exact rfl
  · exact rfl
  · split <;> exact rfl
  · exact rfl
  · split <;> exact rfl
  · exact rfl

theorem givesScalar_toDouble : GivesScalar (toDouble v) := by
  unfold toDouble
  split
  · exact rfl
  · exact rfl
  · exact rfl
  · exact rfl
  · exact rfl
  · exact rfl
  · split <;> exact rfl
  · exact rfl

theorem givesScalar_toText : GivesScalar (toText v) := by
  unfold toText
  split <;> exact rfl

theorem respects_operators {D : Discipline} : ∀ op ∈ operators, D.Respects op.2 := by
  simp only [operators, List.forall_mem_cons]
  exact ⟨.unary_scalar fun _ => rfl, .unary_scalar fun _ => givesScalar_toInt,
    .unary_scalar fun _ => givesScalar_toInt, .unary_scalar fun _ => givesScalar_toDouble,
    .unary_scalar fun _ => rfl, .unary_scalar fun _ => givesScalar_toText, .unary_scalar fun _ => rfl,
    List.forall_mem_nil _⟩

end Conversion

/-! ### Dates -/

namespace Dates

variable {operator : String} {v : Value}

theorem operates_offset {zone : Option Value} : Operates (offset operator zone) := by
  unfold offset
  split
  · trivial
  · trivial
  · trivial
  · split
    · trivial
    · exact rfl
  · exact rfl

theorem givesScalar_ofMillis {millis : Int} : GivesScalar (ofMillis millis) := by
  unfold ofMillis
  split <;> exact rfl

theorem givesScalar_toDate : GivesScalar (toDate v) := by
  unfold toDate
  split
  · exact rfl
  · exact rfl
  · exact rfl
  · exact givesScalar_ofMillis
  · split
    · exact givesScalar_ofMillis
    · exact rfl
  · split <;> exact rfl
  · exact rfl

end Dates

/-! ### Strings -/

namespace Strings

variable {operator : String} {a b v : Value} {vs : List Value}

theorem givesScalar_concat_go : ∀ (vs : List Value) (text : String), GivesScalar (concat.go vs text)
  | [], _ => rfl
  | v :: rest, text => by
    cases v with
    | string s => exact givesScalar_concat_go rest (text ++ s)
    | _ => exact rfl

theorem operates_textOf : Operates (textOf operator v) := by
  unfold textOf
  split
  · trivial
  · trivial
  · trivial
  · trivial
  · trivial
  · exact rfl

theorem givesScalar_mapText {f : String → String} : GivesScalar (mapText operator f v) :=
  operates_textOf.then fun _ => rfl

theorem givesScalar_substring {start length : Value} : GivesScalar (substring v start length) := by
  unfold substring
  refine operates_textOf.then fun text => operates_expectInt.then fun start => operates_expectInt.then fun length => ?_
  dsimp only
  split <;> exact rfl

theorem givesScalar_length : GivesScalar (length v) := operates_expectString.then fun _ => rfl

theorem operates_bound {default : Nat} {v : Option Value} : Operates (bound default v) := by
  unfold bound
  split
  · trivial
  · exact operates_expectInt.bind fun _ _ => trivial

theorem givesScalar_indexOf {needle : Value} {bounds : List Value} : GivesScalar (indexOf v needle bounds) := by
  unfold indexOf
  split
  · exact rfl
  · refine operates_expectString.then fun text => operates_expectString.then fun needle => ?_
    refine operates_bound.then fun start => operates_bound.then fun stop => ?_
    split <;> exact rfl

theorem givesScalar_compareCaseless : GivesScalar (compareCaseless a b) :=
  operates_textOf.then fun _ => operates_textOf.then fun _ => rfl

end Strings

end DocQuery
