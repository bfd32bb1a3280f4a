import DocQuery.Proofs.Filter.Algebra
import DocQuery.Proofs.Filter.Check
import DocQuery.Proofs.Value.Recoded

/-! Filters on recoded documents. What a filter asks of a number it asks of what the number is worth, so that it has
    the same answer for documents that differ in the coding of numbers only. The bits of an integer are the
    exception: a double has them below `9.2 * 10 ^ 18` only, although larger ones are integers, too. -/

namespace DocQuery

open Checked Value

variable {search : Option TextSearch} {P : Int64 → Prop} {v w d e : Value} {vs ws : List Value}

/-! ### Single values -/

namespace Condition

theorem findsEqual_recoded (h : v.Recoded P w) (wanted : Value) : findsEqual wanted v = findsEqual wanted w :=
  any_forall₂ h.withItems fun _ _ h => h.equal_left wanted

theorem liesWithin_recoded (h : v.Recoded P w) (bound : Bound) (limit : Value) :
    liesWithin bound limit v = liesWithin bound limit w := by
  rw [liesWithin, liesWithin, h.isNullish_eq, h.compare_left]

theorem findsWithin_recoded (h : v.Recoded P w) (bound : Bound) (limit : Value) :
    findsWithin bound limit v = findsWithin bound limit w := by
  cases v with
  | array vs =>
    obtain ⟨ws, rfl, hitems⟩ := h.items
    have hany := any_forall₂ hitems fun _ _ h => liesWithin_recoded h bound limit
    rw [findsWithin, findsWithin, liesWithin_recoded h, hany]
  | _ =>
    have hlies := liesWithin_recoded h bound limit
    cases h <;> exact hlies

theorem findsOneOf_recoded (h : v.Recoded P w) (values : List Value) : findsOneOf values v = findsOneOf values w :=
  any_forall₂ h.withItems fun _ _ h => congrArg values.any (funext h.equal_left)

theorem hasSize_recoded (h : v.Recoded P w) (length : Nat) : hasSize length v = hasSize length w := by
  cases h with
  | array hitems => rw [hasSize, hasSize, hitems.length_eq]
  | _ => rfl

theorem findsType_recoded (h : v.Recoded P w) (types : List ValueType) : findsType types v = findsType types w := by
  rw [findsType, findsType, h.isMissing_eq]
  congr 1
  exact any_forall₂ h.withItems fun c c' h => by simp only [h.describes_eq]

theorem findsText_recoded (h : v.Recoded P w) (p : Pattern) : findsText p v = findsText p w :=
  any_forall₂ h.withItems fun c c' h => by cases h <;> rfl

theorem leaves_recoded (h : v.Recoded P w) (divisor rest : Int64) : leaves divisor rest v = leaves divisor rest w := by
  have hnumber := h.toDouble?_rel
  unfold leaves
  generalize v.toDouble? = x, w.toDouble? = y at hnumber
  cases hnumber with
  | none => rfl
  | @some x y hworth =>
    -- The integer is rounded to a double first, which is exact where some double is worth the same.
    have hfinite : x.isFinite = y.isFinite := by rw [Double.isFinite_eq, Double.isFinite_eq, hworth]
    dsimp only
    cases hx : x.isFinite with
    | false => rw [← hfinite, hx, Bool.false_and, Bool.false_and]
    | true => rw [← hfinite, hx, Double.clampDouble_eq hx, Double.clampDouble_eq (hfinite ▸ hx), hworth]

theorem findsRemainder_recoded (h : v.Recoded P w) (divisor rest : Int64) :
    findsRemainder divisor rest v = findsRemainder divisor rest w :=
  any_forall₂ h.withItems fun _ _ h => leaves_recoded h divisor rest

theorem hasBits_recoded (h : v.Recoded P w) (hP : ∀ n, P n → belowIntegerBound n) (test : BitTest)
    (positions : List Nat) : hasBits test positions v = hasBits test positions w := by
  rw [hasBits, hasBits, h.toInt?_eq hP]

/-- Integers above the bound have no bits once they are doubles. -/
theorem hasBits_double {n : Int64} {x : Double} (h : x.worth = Worth.ofInt n.toInt)
    (hlarge : belowIntegerBound n = false) (test : BitTest) (positions : List Nat) :
    hasBits test positions (.double x) = false := by
  rw [hasBits, toInt?_double h, hlarge]
  rfl

/-! ### Conditions -/

theorem someCandidate_recoded (h : List.Forall₂ (Recoded P) vs ws) {absent : Bool} {test : Value → Bool}
    (htest : ∀ {v w}, Recoded P v w → test v = test w) :
    someCandidate absent test vs = someCandidate absent test ws := by
  cases h with
  | nil => rfl
  | cons hfirst hrest => exact any_forall₂ (.cons hfirst hrest) fun _ _ h => htest h

theorem someItem_recoded (h : List.Forall₂ (Recoded P) vs ws) {test : Value → Checked Bool}
    (htest : ∀ {v w}, Recoded P v w → test v = test w) : someItem test vs = someItem test ws :=
  anyM_forall₂ h fun v w h => by
    cases v with
    | array items =>
      obtain ⟨items', rfl, hitems⟩ := h.items
      exact anyM_forall₂ hitems fun _ _ h => htest h
    | _ => cases h <;> rfl

theorem testConditions_recoded (h : List.Forall₂ (Recoded P) vs ws) : ∀ {conditions : List Condition},
    (∀ c ∈ conditions, ∀ {vs ws}, List.Forall₂ (Recoded P) vs ws → c.test search vs = c.test search ws) →
      testConditions search conditions vs = testConditions search conditions ws
  | [], _ => rfl
  | c :: rest, hconditions => by
    obtain ⟨hc, hrest⟩ := List.forall_mem_cons.mp hconditions
    rw [testConditions, testConditions, hc h, testConditions_recoded h hrest]

/-- Does the condition ask for the bits of an integer? -/
def asksBits : Condition → Bool
  | bits .. => true
  | _ => false

/-- A condition has the same answer for recoded candidates if its parts have. -/
theorem test_recoded {c : Condition} (hbits : c.asksBits → ∀ n, P n → belowIntegerBound n)
    (hconditions : ∀ part ∈ c.conditions, ∀ {vs ws}, List.Forall₂ (Recoded P) vs ws →
      part.test search vs = part.test search ws)
    (hfilters : ∀ f ∈ c.filters, ∀ {d e}, Recoded P d e → f.test search d = f.test search e)
    (h : List.Forall₂ (Recoded P) vs ws) : c.test search vs = c.test search ws := by
  -- Most conditions ask candidate by candidate, and then the two candidates are told by the same test.
  have hsome : ∀ {absent test}, (∀ {v w}, Recoded P v w → test v = test w) →
      (.ok (someCandidate absent test vs) : Checked Bool) = .ok (someCandidate absent test ws) :=
    fun htest => congrArg Except.ok (someCandidate_recoded h htest)
  have hempty : vs.isEmpty = ws.isEmpty := by cases h <;> rfl
  cases c with
  | invalid | allOfNoArray => rfl
  | equals wanted => exact hsome fun h => findsEqual_recoded h wanted
  | bounded bound limit => exact hsome fun h => findsWithin_recoded h bound limit
  | oneOf values => exact hsome fun h => findsOneOf_recoded h values
  | allOf wanted =>
    have hwanted : testConditions search wanted vs = testConditions search wanted ws :=
      testConditions_recoded h hconditions
    rw [Condition.test, Condition.test, hempty, hwanted]
  | item conditions =>
    exact someItem_recoded h fun hitem => testConditions_recoded (.cons hitem .nil) hconditions
  | itemObject filter =>
    refine someItem_recoded h fun hitem => ?_
    rw [hitem.isObject_eq, hfilters filter (List.mem_singleton_self _) hitem]
  | itemNoObject =>
    rw [Condition.test, Condition.test, any_forall₂ h fun _ _ h => h.isArray_eq]
  | size length => exact hsome fun h => hasSize_recoded h length
  | present wanted =>
    rw [Condition.test, Condition.test, hempty, any_forall₂ h fun _ _ h => h.isMissing_eq,
      any_forall₂ h fun _ _ h => congrArg (!·) h.isMissing_eq]
  | typed types => exact hsome fun h => findsType_recoded h types
  | pattern p => exact hsome fun h => findsText_recoded h p
  | remainder divisor rest => exact hsome fun h => findsRemainder_recoded h divisor rest
  | bits test positions => exact hsome fun h => hasBits_recoded h (hbits rfl) test positions
  | not condition => rw [Condition.test, Condition.test, hconditions condition (List.mem_singleton_self _) h]

end Condition

/-! ### Filters -/

theorem testAll_congr : ∀ {fs : List Filter}, (∀ f ∈ fs, f.test search d = f.test search e) →
    testAll search fs d = testAll search fs e
  | [], _ => rfl
  | f :: rest, h => by
    obtain ⟨hf, hrest⟩ := List.forall_mem_cons.mp h
    rw [testAll, testAll, hf, testAll_congr hrest]

theorem testAny_congr : ∀ {fs : List Filter}, (∀ f ∈ fs, f.test search d = f.test search e) →
    testAny search fs d = testAny search fs e
  | [], _ => rfl
  | f :: rest, h => by
    obtain ⟨hf, hrest⟩ := List.forall_mem_cons.mp h
    rw [testAny, testAny, hf, testAny_congr hrest]

namespace Filter

variable {f : Filter}

/-- A plain filter has the same answer for a recoded document if its parts have. -/
theorem test_recoded_of_parts (hplain : f.isPlain)
    (hfilters : ∀ part ∈ f.filters, ∀ {d e}, Recoded P d e → part.test search d = part.test search e)
    (hconditions : ∀ c ∈ f.conditions, ∀ {vs ws}, List.Forall₂ (Recoded P) vs ws →
      c.test search vs = c.test search ws)
    (h : d.Recoded P e) : f.test search d = f.test search e := by
  cases f with
  | invalid => rfl
  | all parts => exact testAll_congr fun part hpart => hfilters part hpart h
  | any parts => exact testAny_congr fun part hpart => hfilters part hpart h
  | not part => rw [Filter.test, Filter.test, hfilters part (List.mem_singleton_self _) h]
  | field path condition => exact hconditions condition (List.mem_singleton_self _) (path.candidates_recoded h)
  | conforms schema => rw [Filter.test, Filter.test, Schema.accepts, Schema.accepts, schema.violations_recoded "" h]
  | holds | text => exact Bool.noConfusion hplain

theorem Throughout.test_recoded
    (hparts : f.Throughout (fun c => c.asksBits → ∀ n, P n → belowIntegerBound n) (·.isPlain)) :
    ∀ {d e}, Recoded P d e → f.test search d = f.test search e :=
  hparts.induct (fun c => ∀ {vs ws}, List.Forall₂ (Recoded P) vs ws → c.test search vs = c.test search ws)
    (fun f => ∀ {d e}, Recoded P d e → f.test search d = f.test search e)
    (fun _ hbits hconditions hfilters => Condition.test_recoded hbits hconditions hfilters)
    fun _ hplain hfilters hconditions => test_recoded_of_parts hplain hfilters hconditions

end Filter

/-! ### Queries -/

namespace Query

theorem testValue_bits {source : Value} {test : BitTest} {positions : List Nat}
    (h : Filter.ofValue source = .all [.field ["n"] (.bits test positions)]) (search : Option TextSearch) (v : Value) :
    testValue source search (.object [("n", v)]) = .ok (Condition.hasBits test positions v) := by
  rw [testValue_eq, h, (Filter.Equivalent.all_singleton _).check, (Filter.Equivalent.all_singleton _).test]
  show Except.ok (Condition.hasBits test positions v || false) = _
  rw [Bool.or_false]

/-- Are there bits at all? -/
def asksForBits : Value := .object [("n", .object [("$bitsAllSet", .array [])])]

theorem throughout_bits {source : Value} {test : BitTest} {positions : List Nat} {Q : Condition → Prop}
    (h : Filter.ofValue source = .all [.field ["n"] (.bits test positions)]) (hQ : Q (.bits test positions)) :
    (Filter.ofValue source).Throughout Q (·.isPlain) := by
  have hfield : (Filter.field ["n"] (.bits test positions)).Throughout Q (·.isPlain) :=
    .intro rfl (List.forall_mem_nil _) (List.forall_mem_singleton.mpr (.leaf hQ rfl rfl))
  rw [h]
  exact .intro rfl (List.forall_mem_singleton.mpr hfield) (List.forall_mem_nil _)

/-- Plain filters do not see how numbers are coded, unless they ask for bits and integers of `9.2 * 10 ^ 18` or more
    are recoded. Each such integer that is worth as much as a double is told apart from it by some filter. -/
theorem testValue_recoded (P : Int64 → Prop) :
    (∀ source search d e,
      (Filter.ofValue source).Throughout (fun c => c.asksBits → ∀ n, P n → belowIntegerBound n) (·.isPlain) →
        d.Recoded P e → testValue source search d = testValue source search e) ∧
    ∀ (n : Int64) (x : Double), P n → x.worth = Worth.ofInt n.toInt → belowIntegerBound n = false →
      ∃ source d e, (Filter.ofValue source).Throughout (fun _ => True) (·.isPlain) ∧ d.Recoded P e ∧
        ∀ search, testValue source search d ≠ testValue source search e := by
  refine ⟨fun source search d e hparts h => ?_, fun n x hn hx hlarge => ?_⟩
  · rw [testValue_eq, testValue_eq, hparts.test_recoded h]
  · have hread : Filter.ofValue asksForBits = .all [.field ["n"] (.bits .allSet [])] := rfl
    refine ⟨asksForBits, .object [("n", .int n)], .object [("n", .double x)], throughout_bits hread trivial,
      .object rfl (.cons (.toDouble hn hx) .nil), fun search heq => ?_⟩
    rw [testValue_bits hread, testValue_bits hread, Condition.hasBits_double hx hlarge] at heq
    cases heq

/-- Seven is below the bound, and the bound itself is not. -/
theorem testValue_recoded_seven :
    let source := Value.object [("n", .object [("$bitsAllClear", .array [.int 3])])]
    testValue source none (.object [("n", .int 7)]) = testValue source none (.object [("n", .double (.ofInt 7))]) ∧
      ∃ source d e, (Filter.ofValue source).Throughout (fun _ => True) (·.isPlain) ∧
        d.Recoded (· = 9200000000000000000) e ∧ ∀ search, testValue source search d ≠ testValue source search e := by
  intro source
  have hseven : (Double.ofInt 7).worth = Worth.ofInt (7 : Int64).toInt := by decide +kernel
  have hparts : (Filter.ofValue source).Throughout (fun c => c.asksBits → ∀ n, n = 7 → belowIntegerBound n)
      (·.isPlain) :=
    throughout_bits rfl fun _ n hn => hn ▸ rfl
  exact ⟨(testValue_recoded (· = 7)).1 source none _ _ hparts (.object rfl (.cons (.toDouble rfl hseven) .nil)),
    (testValue_recoded (· = 9200000000000000000)).2 _ _ rfl worth_boundCode rfl⟩

/-- The least bit of `9.2 * 10 ^ 18` is clear, but no bit of the double is. -/
theorem not_testValue_recoded_anyhow :
    ¬∀ source search d e, (Filter.ofValue source).Throughout (fun _ => True) (·.isPlain) →
      d.Recoded (fun _ => True) e → testValue source search d = testValue source search e := by
  intro h
  let source := Value.object [("n", .object [("$bitsAllClear", .array [.int 0])])]
  have hread : Filter.ofValue source = .all [.field ["n"] (.bits .allClear [0])] := rfl
  have heq := h source none (.object [("n", .int 9200000000000000000)]) (.object [("n", .double _)])
    (throughout_bits hread trivial) (.object rfl (.cons (.toDouble trivial worth_boundCode) .nil))
  rw [testValue_bits hread, testValue_bits hread, Condition.hasBits_double worth_boundCode rfl] at heq
  cases heq

end Query

end DocQuery
