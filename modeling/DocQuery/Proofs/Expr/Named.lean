import DocQuery.Proofs.Expr.Collections

/-! Operators on strings and dates with named arguments. They evaluate each argument at most once, in the scope
    that they are given, and go on as the operators on values do. -/

namespace DocQuery

open Checked Discipline Value

variable {D : Discipline} {operator : String}

/-! ### Strings -/

namespace Strings

theorem gives_split {v delimiter : Value} : D.Gives (split v delimiter) := by
  unfold Strings.split
  split
  · exact gives_null
  · refine operates_expectString.gives fun text => operates_expectString.gives fun delimiter => ?_
    dsimp only
    split
    · exact gives_error rfl
    · refine gives_array fun v hv => ?_
      obtain ⟨part, -, rfl⟩ := List.mem_map.mp hv
      exact D.keeps_scalar rfl

theorem respects_trim {atStart atEnd : Bool} : D.Respects (trim operator atStart atEnd) := by
  intro e he s t h
  refine .of_yields (named he (by decide)) fun fields hfields => ?_
  refine .of_yields (required hfields _) fun input hinput => ?_
  refine (hinput.agree h).step fun v _ => ?_
  split
  · exact gives_null.agree
  · refine .of_yields (operates_expectString.reports) fun text _ => ?_
    refine (evalOptional hfields h _).step fun chars _ => Gives.agree ?_
    split
    · exact gives_keeps (D.keeps_scalar rfl)
    · exact gives_null
    · exact gives_null
    · exact gives_keeps (D.keeps_scalar rfl)
    · exact gives_error rfl

theorem respects_replace {count : Option Nat} : D.Respects (replace operator count) := by
  intro e he s t h
  refine .of_yields (named he (by decide)) fun fields hfields => ?_
  refine .of_yields (required hfields _) fun input hinput => (hinput.agree h).step fun input _ => ?_
  refine .of_yields (required hfields _) fun find hfind => (hfind.agree h).step fun find _ => ?_
  refine .of_yields (required hfields _) fun replacement hreplacement => ?_
  refine (hreplacement.agree h).step fun replacement _ => Gives.agree ?_
  split
  · exact gives_null
  · refine operates_expectString.gives fun input => operates_expectString.gives fun find => ?_
    exact operates_expectString.gives fun replacement => gives_keeps (D.keeps_scalar rfl)

theorem respects_operators : ∀ op ∈ operators, D.Respects op.2 := by
  simp only [operators, List.forall_mem_cons]
  exact ⟨.variadic_scalar fun vs => givesScalar_concat_go vs "", .unary_scalar fun _ => givesScalar_mapText,
    .unary_scalar fun _ => givesScalar_mapText, .ternary_scalar fun _ _ _ => givesScalar_substring,
    .ternary_scalar fun _ _ _ => givesScalar_substring, .binary fun _ _ _ _ => gives_split,
    .unary_scalar fun _ => givesScalar_length, respects_trim, respects_trim, respects_trim, respects_replace,
    respects_replace, .ranged_scalar fun _ _ _ => givesScalar_indexOf,
    .binary_scalar fun _ _ => givesScalar_compareCaseless, List.forall_mem_nil _⟩

end Strings

/-! ### Dates -/

namespace Dates

theorem respects_part {f : LocalTime → Int} : D.Respects (part operator f) := by
  intro e he s t h
  unfold part
  extract_lets inS inT
  -- The date and the zone are evaluated in turn, whichever form of the argument they come from.
  have hpart : ∀ date zone, D.Sound date → (∀ z, zone = some z → D.Sound z) →
      D.Agree (inS (date, zone)) (inT (date, zone)) := by
    intro date zone hdate hzone
    dsimp -zeta only [inS, inT]
    extract_lets ofS ofT
    have hof : ∀ zone, D.Agree (ofS zone) (ofT zone) := by
      intro zone
      refine (hdate.agree h).step fun v _ => Gives.agree ?_
      split
      · exact gives_null
      · exact gives_null
      · exact operates_offset.gives fun _ => gives_keeps (D.keeps_scalar rfl)
      · exact gives_error rfl
    cases zone with
    | none => exact hof none
    | some z =>
      have hz : Related (Same fun _ : Option Value => True) D.Reports ((z.eval s).map some) ((z.eval t).map some) :=
        ((hzone z rfl).agree h).map fun _ _ => trivial
      exact hz.step fun zone _ => hof zone
  split
  · exact hpart _ none (he.items _ List.mem_cons_self) nofun
  · split
    · refine .of_yields (named he (by decide)) fun fields hfields => ?_
      refine .of_yields (required hfields _) fun date hdate => ?_
      exact hpart date _ hdate fun z hz => sound_of_get? hfields hz
    · exact hpart _ none he nofun
  · exact hpart _ none he nofun

/-- An argument that is not given stands for null. -/
theorem orNull_agree {fields : Fields Expr} (hfields : ∀ f ∈ fields, D.Sound f.2) {s t : Scope} (h : D.Alike s t)
    (name : String) :
    D.Agree (match fields.get? name with
      | some e => e.eval s
      | none => pure .null) (match fields.get? name with
      | some e => e.eval t
      | none => pure .null) := by
  split
  · next e he => exact (sound_of_get? hfields he).agree h
  · exact gives_null.agree

theorem respects_toText : D.Respects toText := by
  intro e he s t h
  refine .of_yields (named he (by decide)) fun fields hfields => ?_
  refine .of_yields (required hfields _) fun date hdate => (hdate.agree h).step fun v _ => ?_
  split
  · exact orNull_agree hfields h "onNull"
  · exact orNull_agree hfields h "onNull"
  · refine (evalOptional hfields h _).step fun format _ => ?_
    extract_lets inS inT
    -- Only a format that is a text, or none, gets as far as the zone.
    have hformat : ∀ pattern, D.Agree (inS pattern) (inT pattern) := by
      intro pattern
      refine (evalOptional hfields h _).step fun zone _ => Gives.agree ?_
      refine operates_offset.gives fun seconds => ?_
      split
      · exact gives_keeps (D.keeps_scalar rfl)
      · exact gives_error rfl
    split
    · exact hformat LocalTime.defaultFormat
    · next pattern _ => exact hformat pattern
    · exact agree_error rfl
  · exact agree_error rfl

theorem respects_operators : ∀ op ∈ operators, D.Respects op.2 := by
  simp only [operators, List.forall_mem_cons]
  exact ⟨respects_part, respects_part, respects_part, respects_part, respects_part, respects_part, respects_part,
    respects_part, respects_part, respects_toText, .unary_scalar fun _ => givesScalar_toDate, List.forall_mem_nil _⟩

end Dates

end DocQuery
