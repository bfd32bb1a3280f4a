import DocQuery.Filter.Test
import DocQuery.Proofs.Checked.Related

/-! Filters and conditions with their parts. A property holds throughout a filter if it holds of the filter and of
    all its parts. What a test reports comes from some part that reports it by itself. -/

namespace DocQuery

open Checked

/-- The conditions that a condition is made of. -/
def Condition.conditions : Condition → List Condition
  | allOf wanted => wanted
  | item conditions => conditions
  | not condition => [condition]
  | _ => []

def Condition.filters : Condition → List Filter
  | itemObject filter => [filter]
  | _ => []

/-- The filters that a filter is made of. -/
def Filter.filters : Filter → List Filter
  | all parts | any parts => parts
  | not part => [part]
  | _ => []

def Filter.conditions : Filter → List Condition
  | field _ condition => [condition]
  | _ => []

/-! ### Throughout -/

mutual

/-- `P` holds of the condition and of all conditions in it, and `Q` of all filters in it. -/
inductive Condition.Throughout (P : Condition → Prop) (Q : Filter → Prop) : Condition → Prop
  | intro {c : Condition} : P c → (∀ part ∈ c.conditions, Condition.Throughout P Q part) →
      (∀ f ∈ c.filters, Filter.Throughout P Q f) → Condition.Throughout P Q c

/-- `Q` holds of the filter and of all filters in it, and `P` of all conditions in it. -/
inductive Filter.Throughout (P : Condition → Prop) (Q : Filter → Prop) : Filter → Prop
  | intro {f : Filter} : Q f → (∀ part ∈ f.filters, Filter.Throughout P Q part) →
      (∀ c ∈ f.conditions, Condition.Throughout P Q c) → Filter.Throughout P Q f

end

section Throughout

variable {P : Condition → Prop} {Q : Filter → Prop} {f : Filter}

/-- What passes from the parts of each filter and condition to itself holds of the filter. -/
theorem Filter.Throughout.induct (P' : Condition → Prop) (Q' : Filter → Prop)
    (condition : ∀ c, P c → (∀ part ∈ c.conditions, P' part) → (∀ f ∈ c.filters, Q' f) → P' c)
    (filter : ∀ f, Q f → (∀ part ∈ f.filters, Q' part) → (∀ c ∈ f.conditions, P' c) → Q' f)
    (h : f.Throughout P Q) : Q' f :=
  @Filter.Throughout.rec P Q (fun c _ => P' c) (fun f _ => Q' f)
    (fun h _ _ hconditions hfilters => condition _ h hconditions hfilters)
    (fun h _ _ hfilters hconditions => filter _ h hfilters hconditions) f h

theorem Condition.Throughout.leaf {c : Condition} (h : P c) (hconditions : c.conditions = [])
    (hfilters : c.filters = []) : c.Throughout P Q :=
  .intro h (hconditions ▸ List.forall_mem_nil _) (hfilters ▸ List.forall_mem_nil _)

theorem Filter.Throughout.leaf (h : Q f) (hfilters : f.filters = []) (hconditions : f.conditions = []) :
    f.Throughout P Q :=
  .intro h (hfilters ▸ List.forall_mem_nil _) (hconditions ▸ List.forall_mem_nil _)

end Throughout

/-! ### What a test reports -/

/-- The faults that the condition reports by itself are all among `F`. -/
def Condition.OwnFaults (F : Fault → Prop) : Condition → Prop
  | invalid _ met => F met
  | allOfNoArray => F (.operandNotArray "$all")
  | itemNoObject => F .elemMatchNotObject
  | _ => True

/-- The faults that the filter reports by itself are all among `F`. -/
def Filter.OwnFaults (search : Option TextSearch) (F : Fault → Prop) : Filter → Prop
  | invalid _ met => F met
  | holds expression => ∀ d, FailsWith F (Expr.evaluateOn expression d)
  | text wanted => ∀ s, search = some s → ∀ d, FailsWith F (s d wanted)
  | _ => True

/-- All parts report faults among `F` only. -/
abbrev Condition.FaultsAmong (search : Option TextSearch) (F : Fault → Prop) (c : Condition) : Prop :=
  c.Throughout (·.OwnFaults F) (·.OwnFaults search F)

@[inherit_doc Condition.FaultsAmong]
abbrev Filter.FaultsAmong (search : Option TextSearch) (F : Fault → Prop) (f : Filter) : Prop :=
  f.Throughout (·.OwnFaults F) (·.OwnFaults search F)

section Tests

variable {search : Option TextSearch} {F : Fault → Prop}

theorem failsWith_testConditions : ∀ (cs : List Condition) {vs : List Value},
    (∀ c ∈ cs, FailsWith F (c.test search vs)) → FailsWith F (testConditions search cs vs)
  | [], _, _ => trivial
  | c :: rest, vs, h => by
    obtain ⟨hc, hrest⟩ := List.forall_mem_cons.mp h
    refine hc.bind fun holds _ => ?_
    split
    · exact failsWith_testConditions rest hrest
    · trivial

theorem failsWith_testAll : ∀ (fs : List Filter) {d : Value}, (∀ f ∈ fs, FailsWith F (f.test search d)) →
    FailsWith F (testAll search fs d)
  | [], _, _ => trivial
  | f :: rest, d, h => by
    obtain ⟨hf, hrest⟩ := List.forall_mem_cons.mp h
    refine hf.bind fun holds _ => ?_
    split
    · exact failsWith_testAll rest hrest
    · trivial

theorem failsWith_testAny : ∀ (fs : List Filter) {d : Value}, (∀ f ∈ fs, FailsWith F (f.test search d)) →
    FailsWith F (testAny search fs d)
  | [], _, _ => trivial
  | f :: rest, d, h => by
    obtain ⟨hf, hrest⟩ := List.forall_mem_cons.mp h
    refine hf.bind fun holds _ => ?_
    split
    · trivial
    · exact failsWith_testAny rest hrest

theorem failsWith_someItem {test : Value → Checked Bool} {vs : List Value} (h : ∀ v, FailsWith F (test v)) :
    FailsWith F (Condition.someItem test vs) := by
  refine .anyM fun v _ => ?_
  split
  · exact .anyM fun item _ => h item
  · trivial

/-- A condition fails with its own faults and those of its parts. -/
theorem Condition.failsWith_test (c : Condition) (hown : c.OwnFaults F)
    (hconditions : ∀ part ∈ c.conditions, ∀ vs, FailsWith F (part.test search vs))
    (hfilters : ∀ f ∈ c.filters, ∀ d, FailsWith F (f.test search d)) (vs : List Value) :
    FailsWith F (c.test search vs) := by
  cases c with
  | invalid | allOfNoArray => exact hown
  | allOf wanted =>
    rw [Condition.test]
    split
    · trivial
    · exact failsWith_testConditions wanted fun part hpart => hconditions part hpart vs
  | item conditions =>
    exact failsWith_someItem fun v => failsWith_testConditions conditions fun part hpart => hconditions part hpart [v]
  | itemObject filter =>
    refine failsWith_someItem fun v => ?_
    split
    · exact hfilters filter (List.mem_singleton_self _) v
    · trivial
  | itemNoObject =>
    rw [Condition.test]
    split
    · exact hown
    · trivial
  | not condition => exact (hconditions condition (List.mem_singleton_self _) vs).bind fun _ _ => trivial
  | _ => trivial

/-- A filter fails with its own faults and those of its parts. -/
theorem Filter.failsWith_test (f : Filter) (hown : f.OwnFaults search F)
    (hfilters : ∀ part ∈ f.filters, ∀ d, FailsWith F (part.test search d))
    (hconditions : ∀ c ∈ f.conditions, ∀ vs, FailsWith F (c.test search vs)) (d : Value) :
    FailsWith F (f.test search d) := by
  cases f with
  | invalid => exact hown
  | all parts => exact failsWith_testAll parts fun part hpart => hfilters part hpart d
  | any parts => exact failsWith_testAny parts fun part hpart => hfilters part hpart d
  | not part => exact (hfilters part (List.mem_singleton_self _) d).bind fun _ _ => trivial
  | field path condition => exact hconditions condition (List.mem_singleton_self _) _
  | holds expression => exact (hown d).bind fun _ _ => trivial
  | conforms => trivial
  | text wanted =>
    cases search with
    | some search => exact hown search rfl d
    | none => trivial

/-- A test fails with the own faults of parts of the filter. -/
theorem Filter.FaultsAmong.failsWith_test {f : Filter} (h : f.FaultsAmong search F) :
    ∀ d, FailsWith F (f.test search d) :=
  h.induct (fun c => ∀ vs, FailsWith F (c.test search vs)) (fun f => ∀ d, FailsWith F (f.test search d))
    Condition.failsWith_test Filter.failsWith_test

end Tests

end DocQuery
