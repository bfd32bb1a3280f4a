import DocQuery.Proofs.Expr.WellFormed
import DocQuery.Proofs.Filter.Parts
import DocQuery.Proofs.Filter.Reading

/-! The faults that filters keep. A part that has no meaning is kept with its fault, and no such fault asks for a
    document. -/

namespace DocQuery

open Checked

/-! ### Schemas -/

namespace Schema

variable {keyword : String} {v : Value}

theorem failsWith_countOf : FailsWith (·.isNotDocument = false) (countOf keyword v) := by
  unfold countOf
  split
  · split
    · trivial
    · exact rfl
  · exact rfl

theorem failsWith_numberOf : FailsWith (·.isNotDocument = false) (numberOf keyword v) := by
  unfold numberOf
  split
  · trivial
  · exact rfl

theorem failsWith_typeOf : FailsWith (·.isNotDocument = false) (typeOf keyword v) := by
  unfold typeOf
  split
  · split
    · trivial
    · exact rfl
  · exact rfl

theorem failsWith_typesOf : FailsWith (·.isNotDocument = false) (typesOf keyword v) := by
  unfold typesOf
  split
  · exact .mapM_failsWith fun _ _ => failsWith_typeOf
  · exact failsWith_typeOf.bind fun _ _ => trivial

theorem failsWith_fieldNamesOf : FailsWith (·.isNotDocument = false) (fieldNamesOf v) := by
  unfold fieldNamesOf
  split
  · refine .mapM_failsWith fun entry _ => ?_
    split
    · trivial
    · exact rfl
  · exact rfl

theorem failsWith_patternOf : FailsWith (·.isNotDocument = false) (patternOf v) := by
  unfold patternOf
  split
  · split
    · trivial
    · exact rfl
  · exact rfl

theorem failsWith_allowedOf : FailsWith (·.isNotDocument = false) (allowedOf v) := by
  unfold allowedOf
  split
  · trivial
  · exact rfl

theorem failsWith_closedOf : FailsWith (·.isNotDocument = false) (closedOf v) := by
  unfold closedOf
  split
  · trivial
  · exact rfl

mutual

theorem failsWith_ofValue : ∀ v, FailsWith (·.isNotDocument = false) (ofValue v)
  | .object keywords => failsWith_ofKeywords keywords {}
  | .missing | .null | .bool _ | .int _ | .double _ | .string _ | .date _ | .array _ => by exact rfl

theorem failsWith_ofKeywords : ∀ keywords schema, FailsWith (·.isNotDocument = false) (ofKeywords keywords schema)
  | [], _ => trivial
  | (keyword, v) :: rest, schema => by
    unfold ofKeywords
    extract_lets goOn
    have hgoOn : ∀ schema, FailsWith (·.isNotDocument = false) (goOn schema) := failsWith_ofKeywords rest
    split
    · exact failsWith_typesOf.bind fun _ _ => hgoOn _
    · exact failsWith_typesOf.bind fun _ _ => hgoOn _
    · exact failsWith_fieldNamesOf.bind fun _ _ => hgoOn _
    · exact (failsWith_propertiesOf v).bind fun _ _ => hgoOn _
    · exact failsWith_numberOf.bind fun _ _ => hgoOn _
    · exact failsWith_numberOf.bind fun _ _ => hgoOn _
    · exact failsWith_patternOf.bind fun _ _ => hgoOn _
    · exact failsWith_allowedOf.bind fun _ _ => hgoOn _
    · exact failsWith_countOf.bind fun _ _ => hgoOn _
    · exact failsWith_countOf.bind fun _ _ => hgoOn _
    · exact failsWith_countOf.bind fun _ _ => hgoOn _
    · exact failsWith_countOf.bind fun _ _ => hgoOn _
    · exact failsWith_closedOf.bind fun _ _ => hgoOn _
    · exact (failsWith_ofValue v).bind fun _ _ => hgoOn _
    · exact hgoOn _
    · exact hgoOn _
    · exact rfl

theorem failsWith_propertiesOf : ∀ v, FailsWith (·.isNotDocument = false) (propertiesOf v)
  | .object fields => failsWith_ofFields fields
  | .missing | .null | .bool _ | .int _ | .double _ | .string _ | .date _ | .array _ => by exact rfl

theorem failsWith_ofFields : ∀ fields, FailsWith (·.isNotDocument = false) (ofFields fields)
  | [] => trivial
  | (field, v) :: rest => by
    rw [ofFields]
    refine ((failsWith_ofValue v).mapError fun fault hfault => hfault).bind fun schema _ => ?_
    exact (failsWith_ofFields rest).bind fun _ _ => trivial

end

end Schema

/-! ### Conditions -/

namespace Condition

variable {v : Value} {F : Fault → Prop} {search : Option TextSearch} {fields : Document} {conditions : List Condition}

theorem failsWith_lengthOf : FailsWith (·.isNotDocument = false) (lengthOf v) := by
  unfold lengthOf
  split
  · split
    · trivial
    · exact rfl
  · exact rfl

theorem failsWith_typesOf : FailsWith (·.isNotDocument = false) (typesOf v) := by
  have htype : ∀ v, FailsWith (·.isNotDocument = false) (typeOf v) := by
    intro v
    unfold typeOf
    split
    · trivial
    · exact rfl
  unfold typesOf
  split
  · exact .mapM_failsWith fun v _ => htype v
  · exact (htype _).bind fun _ _ => trivial

theorem failsWith_compile {text options : String} : FailsWith (·.isNotDocument = false) (compile text options) := by
  unfold compile
  split
  · exact rfl
  · dsimp only
    split
    · trivial
    · exact rfl

theorem failsWith_patternOf : FailsWith (·.isNotDocument = false) (patternOf v) := by
  unfold patternOf
  split
  · exact failsWith_compile
  · split
    · exact failsWith_compile
    · exact failsWith_compile
    · exact rfl
    · exact rfl
  · exact rfl

theorem failsWith_divisionOf : FailsWith (·.isNotDocument = false) (divisionOf v) := by
  have hwhole : ∀ v, FailsWith (·.isNotDocument = false) (wholeOf v) := by
    intro v
    unfold wholeOf
    split
    · split
      · trivial
      · exact rfl
    · exact rfl
  unfold divisionOf
  split
  · refine (hwhole _).bind fun divisor _ => (hwhole _).bind fun rest _ => ?_
    split
    · exact rfl
    · trivial
  · exact rfl

theorem failsWith_positionsOf {operator : String} : FailsWith (·.isNotDocument = false) (positionsOf operator v) := by
  unfold positionsOf
  split
  · refine .mapM_failsWith fun v _ => ?_
    unfold positionOf
    split
    · split
      · trivial
      · exact rfl
    · exact rfl
  · split
    · split
      · trivial
      · exact rfl
    · exact rfl

/-! ### Reading -/

theorem faultsAmong_refused {fault : Fault} (h : F fault) : (refused fault).FaultsAmong search F := .leaf h rfl rfl

theorem faultsAmong_not {c : Condition} (h : c.FaultsAmong search F) : (Condition.not c).FaultsAmong search F :=
  .intro trivial (List.forall_mem_singleton.mpr h) (List.forall_mem_nil _)

variable (hF : ∀ fault : Fault, fault.isNotDocument = false → F fault)

include hF

theorem faultsAmong_ofArgument {α : Type} {argument : Checked α} {condition : α → Condition}
    (h : FailsWith (·.isNotDocument = false) argument) (hcondition : ∀ a, (condition a).FaultsAmong search F) :
    (ofArgument argument condition).FaultsAmong search F := by
  cases argument with
  | ok a => exact hcondition a
  | error fault => exact faultsAmong_refused (hF fault h)

theorem faultsAmong_together (h : ∀ c ∈ conditions, c.FaultsAmong search F) :
    ∀ c ∈ together fields conditions, c.FaultsAmong search F := by
  unfold together
  split
  · exact List.forall_mem_singleton.mpr (faultsAmong_refused (hF _ rfl))
  · exact h

theorem faultsAmong_alone (h : ∀ c ∈ conditions, c.FaultsAmong search F) :
    (alone fields conditions).FaultsAmong search F := by
  have htogether : ∀ c ∈ together fields conditions, c.FaultsAmong search F := faultsAmong_together hF h
  unfold alone
  split
  · next c heq => exact htogether c (heq ▸ List.mem_singleton_self c)
  · exact faultsAmong_refused (hF _ rfl)

end Condition

section Reader

open Condition

variable {F : Fault → Prop} {search : Option TextSearch}

/-- The property holds of all faults that ask for no document, and of those that the search of texts reports. -/
structure Filter.Admits (F : Fault → Prop) (search : Option TextSearch) : Prop where
  form : ∀ fault : Fault, fault.isNotDocument = false → F fault
  search : ∀ s, search = some s → ∀ d wanted, FailsWith F (s d wanted)

mutual

theorem faultsAmong_ofOperator (hF : Filter.Admits F search) :
    ∀ operator v, (ofOperator operator v).FaultsAmong search F
  | .eq, _ | .bound _, _ | .present, _ => by
    rw [ofOperator]
    exact .leaf trivial rfl rfl
  | .ne, _ => by
    rw [ofOperator]
    exact faultsAmong_not (.leaf trivial rfl rfl)
  | .oneOf, v => by
    cases v with
    | array values => exact .leaf trivial rfl rfl
    | _ => exact faultsAmong_refused (hF.form _ rfl)
  | .noneOf, v => by
    cases v with
    | array values => exact faultsAmong_not (.leaf trivial rfl rfl)
    | _ => exact .leaf (hF.form _ rfl) rfl rfl
  | .allOf, .array values => .intro trivial (faultsAmong_ofWanted hF values) (List.forall_mem_nil _)
  | .allOf, .missing | .allOf, .null | .allOf, .bool _ | .allOf, .int _ | .allOf, .double _ | .allOf, .string _
  | .allOf, .date _ | .allOf, .object _ => .leaf (hF.form _ rfl) rfl rfl
  | .item, .object fields => by
    rw [ofOperator]
    -- The object is read as operators if it begins like some, and as a filter otherwise.
    split
    · exact .intro trivial (faultsAmong_together hF.form (faultsAmong_ofOperators hF _ fields)) (List.forall_mem_nil _)
    · refine .intro trivial (List.forall_mem_nil _) (List.forall_mem_singleton.mpr ?_)
      exact .intro trivial (faultsAmong_ofFields hF fields) (List.forall_mem_nil _)
  | .item, .missing | .item, .null | .item, .bool _ | .item, .int _ | .item, .double _ | .item, .string _
  | .item, .date _ | .item, .array _ => .leaf (hF.form _ rfl) rfl rfl
  | .size, _ => by
    rw [ofOperator]
    exact faultsAmong_ofArgument hF.form failsWith_lengthOf fun _ => .leaf trivial rfl rfl
  | .typed, _ => by
    rw [ofOperator]
    exact faultsAmong_ofArgument hF.form failsWith_typesOf fun _ => .leaf trivial rfl rfl
  | .regex, _ => by
    rw [ofOperator]
    exact faultsAmong_ofArgument hF.form failsWith_patternOf fun _ => .leaf trivial rfl rfl
  | .mod, _ => by
    rw [ofOperator]
    exact faultsAmong_ofArgument hF.form failsWith_divisionOf fun _ => .leaf trivial rfl rfl
  | .bits _, _ => by
    rw [ofOperator]
    exact faultsAmong_ofArgument hF.form failsWith_positionsOf fun _ => .leaf trivial rfl rfl
  | .not, .object fields => faultsAmong_not (faultsAmong_alone hF.form (faultsAmong_ofOperators hF _ fields))
  | .not, .missing | .not, .null | .not, .bool _ | .not, .int _ | .not, .double _ | .not, .string _
  | .not, .date _ | .not, .array _ => faultsAmong_refused (hF.form _ rfl)

theorem faultsAmong_ofOperators (hF : Filter.Admits F search) :
    ∀ options fields, ∀ c ∈ ofOperators options fields, c.FaultsAmong search F
  | _, [] => List.forall_mem_nil _
  | options, (name, v) :: rest => by
    rw [ofOperators]
    split
    · exact faultsAmong_ofOperators hF options rest
    · refine List.forall_mem_cons.mpr ⟨?_, faultsAmong_ofOperators hF options rest⟩
      split
      · exact faultsAmong_ofArgument hF.form failsWith_patternOf fun _ => .leaf trivial rfl rfl
      · exact faultsAmong_ofOperator hF _ v
      · exact faultsAmong_refused (hF.form _ rfl)

theorem faultsAmong_ofWanted (hF : Filter.Admits F search) :
    ∀ values, ∀ c ∈ ofWanted values, c.FaultsAmong search F
  | [] => List.forall_mem_nil _
  | v :: rest => by
    have hrest := faultsAmong_ofWanted hF rest
    rw [ofWanted_cons]
    refine List.forall_mem_cons.mpr ⟨?_, hrest⟩
    split
    · exact faultsAmong_ofOperator hF .item _
    · exact .leaf trivial rfl rfl

theorem Condition.faultsAmong_ofValue (hF : Filter.Admits F search) : ∀ v, (Condition.ofValue v).FaultsAmong search F
  | .object fields => by
    rw [Condition.ofValue]
    split
    · exact .leaf trivial rfl rfl
    · split
      · exact faultsAmong_refused (hF.form _ rfl)
      · exact faultsAmong_alone hF.form (faultsAmong_ofOperators hF _ fields)
  | .missing | .null | .bool _ | .int _ | .double _ | .string _ | .date _ | .array _ => .leaf trivial rfl rfl

theorem Filter.faultsAmong_ofValue (hF : Filter.Admits F search) : ∀ v, (Filter.ofValue v).FaultsAmong search F
  | .object fields => .intro trivial (faultsAmong_ofFields hF fields) (List.forall_mem_nil _)
  | .missing | .null | .bool _ | .int _ | .double _ | .string _ | .date _ | .array _ => .leaf (hF.form _ rfl) rfl rfl

theorem faultsAmong_ofFields (hF : Filter.Admits F search) :
    ∀ fields, ∀ f ∈ Filter.ofFields fields, f.FaultsAmong search F
  | [] => List.forall_mem_nil _
  | (name, v) :: rest => by
    rw [Filter.ofFields]
    refine List.forall_mem_cons.mpr ⟨?_, faultsAmong_ofFields hF rest⟩
    have hparts := faultsAmong_ofArray? hF v
    split
    · split
      · split
        · next parts heq => exact .intro trivial (hparts parts heq) (List.forall_mem_nil _)
        · exact .leaf (hF.form _ rfl) rfl rfl
      · split
        · next parts heq => exact .intro trivial (hparts parts heq) (List.forall_mem_nil _)
        · exact .leaf (hF.form _ rfl) rfl rfl
      · split
        · next parts heq =>
          have hany : (Filter.any parts).FaultsAmong search F :=
            .intro trivial (hparts parts heq) (List.forall_mem_nil _)
          exact .intro trivial (List.forall_mem_singleton.mpr hany) (List.forall_mem_nil _)
        · exact .leaf (hF.form _ rfl) rfl rfl
      · exact .intro trivial (List.forall_mem_singleton.mpr (Filter.faultsAmong_ofValue hF v)) (List.forall_mem_nil _)
      · exact .leaf (fun d => (isNotDocument_evaluate v _).weaken hF.form) rfl rfl
      · split
        · exact .leaf trivial rfl rfl
        · next fault heq => exact .leaf (hF.form _ ((Schema.failsWith_ofValue v).of_eq_error heq)) rfl rfl
      · exact .leaf trivial rfl rfl
      · exact .leaf (fun s hs d => hF.search s hs d v) rfl rfl
      · exact .leaf (hF.form _ rfl) rfl rfl
    · exact .intro trivial (List.forall_mem_nil _) (List.forall_mem_singleton.mpr (Condition.faultsAmong_ofValue hF v))

theorem faultsAmong_ofArray? (hF : Filter.Admits F search) :
    ∀ v parts, Filter.ofArray? v = some parts → ∀ f ∈ parts, f.FaultsAmong search F
  | .array items, _, h => Option.some.inj h ▸ faultsAmong_ofItems hF items
  | .missing, _, h | .null, _, h | .bool _, _, h | .int _, _, h | .double _, _, h | .string _, _, h | .date _, _, h
  | .object _, _, h => nomatch h

theorem faultsAmong_ofItems (hF : Filter.Admits F search) :
    ∀ items, ∀ f ∈ Filter.ofItems items, f.FaultsAmong search F
  | [] => List.forall_mem_nil _
  | v :: rest => List.forall_mem_cons.mpr ⟨Filter.faultsAmong_ofValue hF v, faultsAmong_ofItems hF rest⟩

end

end Reader

end DocQuery
