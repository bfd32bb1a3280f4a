import DocQuery.Query
import DocQuery.Proofs.Checked
import DocQuery.Proofs.Filter.Reading

/-! The algebra of filters. Two filters are equivalent if the check finds the same in both and every test gives them
    the same answer, or meets the same fault. Clauses that stand together are a conjunction, a negation taken twice
    changes nothing, and a negated disjunction is a conjunction of negations. The order of the parts decides which
    fault is met first, but never the answer. -/

namespace DocQuery

open Checked

/-! ### Parts in a row -/

section Parts

variable {search : Option TextSearch} {d : Value} {f : Filter} {fs gs : List Filter}

theorem checkFilters_append : ∀ fs gs, checkFilters (fs ++ gs) = checkFilters fs >>= fun _ => checkFilters gs
  | [], _ => rfl
  | f :: rest, gs => by
    rw [List.cons_append, checkFilters, checkFilters, checkFilters_append rest gs, bind_assoc]

theorem checkFilters_singleton (f : Filter) : checkFilters [f] = f.check := by
  rw [checkFilters, checkFilters]
  cases f.check <;> rfl

theorem testAll_append : ∀ fs gs, testAll search (fs ++ gs) d =
    testAll search fs d >>= fun holds => if holds then testAll search gs d else .ok false
  | [], _ => rfl
  | f :: rest, gs => by
    rw [List.cons_append, testAll, testAll, testAll_append rest gs, bind_assoc]
    refine bind_congr fun holds => ?_
    cases holds <;> rfl

theorem testAll_singleton (f : Filter) : testAll search [f] d = f.test search d := by
  rw [testAll, testAll]
  rcases f.test search d with _ | _ | _ <;> rfl

/-- A disjunction is tested like the negation of the conjunction of the negated parts. -/
theorem testAny_eq : ∀ fs, testAny search fs d = do return !(← testAll search (fs.map .not) d)
  | [] => rfl
  | f :: rest => by
    rw [testAny, List.map_cons, testAll, testAny_eq rest, Filter.test]
    rcases f.test search d with _ | _ | _ <;> rfl

theorem testAll_eq_true : ∀ {fs}, testAll search fs d = .ok true ↔ ∀ f ∈ fs, f.test search d = .ok true
  | [] => iff_of_true rfl (List.forall_mem_nil _)
  | f :: rest => by
    rw [testAll, bind_eq_ok, List.forall_mem_cons, ← testAll_eq_true]
    simp

theorem exists_of_testAll_eq_false : ∀ {fs}, testAll search fs d = .ok false → ∃ f ∈ fs, f.test search d = .ok false
  | f :: rest, h => by
    rw [testAll, bind_eq_ok] at h
    obtain ⟨holds, hf, hrest⟩ := h
    cases holds with
    | false => exact ⟨f, List.mem_cons_self, hf⟩
    | true =>
      obtain ⟨g, hg, htest⟩ := exists_of_testAll_eq_false hrest
      exact ⟨g, List.mem_cons_of_mem _ hg, htest⟩

end Parts

/-! ### Equivalence -/

namespace Filter

/-- Neither the check nor any test tells the filters apart. -/
structure Equivalent (f g : Filter) : Prop where
  check : f.check = g.check
  test : ∀ search d, f.test search d = g.test search d

namespace Equivalent

variable {f g h : Filter} {fs gs hs : List Filter}

theorem symm (hfg : f.Equivalent g) : g.Equivalent f := ⟨hfg.check.symm, fun search d => (hfg.test search d).symm⟩

theorem trans (hfg : f.Equivalent g) (hgh : g.Equivalent h) : f.Equivalent h :=
  ⟨hfg.check.trans hgh.check, fun search d => (hfg.test search d).trans (hgh.test search d)⟩

theorem not (hfg : f.Equivalent g) : (Filter.not f).Equivalent (.not g) where
  check := hfg.check
  test search d := by rw [Filter.test, Filter.test, hfg.test search d]

/-- Conjunctions are equivalent if their first parts are, and the rests. -/
theorem cons (hfg : f.Equivalent g) (hrest : (all fs).Equivalent (all gs)) :
    (all (f :: fs)).Equivalent (all (g :: gs)) where
  check := by
    rw [Filter.check, Filter.check, checkFilters, checkFilters, hfg.check]
    exact bind_congr fun _ => hrest.check
  test search d := by
    have htests : testAll search fs d = testAll search gs d := hrest.test search d
    rw [Filter.test, Filter.test, testAll, testAll, hfg.test, htests]

theorem all_map {α : Type} {p q : α → Filter} (h : ∀ a, (p a).Equivalent (q a)) :
    ∀ as : List α, (all (as.map p)).Equivalent (all (as.map q))
  | [] => ⟨rfl, fun _ _ => rfl⟩
  | a :: rest => cons (h a) (all_map h rest)

/-! ### Laws -/

/-- A conjunction of one part is the part. -/
theorem all_singleton (f : Filter) : (all [f]).Equivalent f :=
  ⟨checkFilters_singleton f, fun _ _ => testAll_singleton f⟩

/-- Parts that stand together at the beginning are a conjunction of their own. -/
theorem all_append (h : (all gs).Equivalent (all hs)) : (all (fs ++ gs)).Equivalent (all (all fs :: hs)) where
  check := by
    rw [Filter.check, Filter.check, checkFilters_append, checkFilters, Filter.check]
    exact bind_congr fun _ => h.check
  test search d := by
    have htests : testAll search gs d = testAll search hs d := h.test search d
    rw [Filter.test, Filter.test, testAll_append, testAll, Filter.test, htests]

theorem all_flatten : ∀ parts : List (List Filter), (all parts.flatten).Equivalent (all (parts.map all))
  | [] => ⟨rfl, fun _ _ => rfl⟩
  | _ :: rest => all_append (all_flatten rest)

/-- A negation is undone by another one. -/
theorem not_not (f : Filter) : (Filter.not (.not f)).Equivalent f where
  check := rfl
  test search d := by
    rw [Filter.test, Filter.test]
    rcases f.test search d with _ | _ | _ <;> rfl

/-- No part holds iff the negations of all parts hold. -/
theorem not_any (fs : List Filter) : (Filter.not (any fs)).Equivalent (all (fs.map .not)) where
  check := by
    show checkFilters fs = checkFilters (fs.map .not)
    induction fs with
    | nil => rfl
    | cons f rest ih => rw [List.map_cons, checkFilters, checkFilters, ih]; rfl
  test search d := by
    rw [Filter.test, Filter.test, Filter.test, testAny_eq]
    rcases testAll search (fs.map .not) d with _ | _ | _ <;> rfl

/-- Some part holds iff the negations of the parts do not hold together. -/
theorem any_eq (fs : List Filter) : (any fs).Equivalent (.not (all (fs.map .not))) :=
  (not_not (any fs)).symm.trans (not_any fs).not

end Equivalent

/-! ### Order -/

/-- Where both succeed the answers are the same. -/
def AnswersAgree (x y : Checked Bool) : Prop := ∀ a b, x = .ok a → y = .ok b → a = b

variable {search : Option TextSearch} {d : Value} {fs gs : List Filter}

theorem not_testAll_perm (h : fs.Perm gs) (hfs : testAll search fs d = .ok true) : testAll search gs d ≠ .ok false := by
  intro hgs
  obtain ⟨g, hg, hfalse⟩ := exists_of_testAll_eq_false hgs
  have htrue := testAll_eq_true.mp hfs g (h.mem_iff.mpr hg)
  exact nomatch htrue.symm.trans hfalse

theorem answersAgree_all (h : fs.Perm gs) : AnswersAgree ((all fs).test search d) ((all gs).test search d)
  | true, true, _, _ | false, false, _, _ => rfl
  | true, false, hfs, hgs => absurd hgs (not_testAll_perm h hfs)
  | false, true, hfs, hgs => absurd hfs (not_testAll_perm h.symm hgs)

theorem AnswersAgree.not {f g : Filter} (h : AnswersAgree (f.test search d) (g.test search d)) :
    AnswersAgree ((Filter.not f).test search d) ((Filter.not g).test search d) := by
  intro a b hf hg
  rw [Filter.test, bind_eq_ok] at hf hg
  obtain ⟨a', hf, ha⟩ := hf
  obtain ⟨b', hg, hb⟩ := hg
  obtain rfl := h a' b' hf hg
  exact Except.ok.inj (ha.symm.trans hb)

theorem answersAgree_any (h : fs.Perm gs) : AnswersAgree ((any fs).test search d) ((any gs).test search d) := by
  rw [(Equivalent.any_eq fs).test, (Equivalent.any_eq gs).test]
  exact (answersAgree_all (h.map .not)).not

end Filter

/-! ### Filters as values -/

namespace Query

open DocQuery.Filter

/-- The filter that asks for all of the filters. -/
def conjunction (filters : List Value) : Value := .object [("$and", .array filters)]

/-- The filter that asks for some of the filters. -/
def disjunction (filters : List Value) : Value := .object [("$or", .array filters)]

/-- The filter that asks for none of the filters. -/
def rejection (filters : List Value) : Value := .object [("$nor", .array filters)]

def negation (filter : Value) : Value := .object [("$not", filter)]

theorem ofValue_conjunction (filters : List Value) :
    (Filter.ofValue (conjunction filters)).Equivalent (all (filters.map Filter.ofValue)) := by
  rw [← ofItems_eq]
  exact .all_singleton _

theorem ofValue_disjunction (filters : List Value) :
    (Filter.ofValue (disjunction filters)).Equivalent (any (filters.map Filter.ofValue)) := by
  rw [← ofItems_eq]
  exact .all_singleton _

theorem ofValue_rejection (filters : List Value) :
    (Filter.ofValue (rejection filters)).Equivalent (.not (any (filters.map Filter.ofValue))) := by
  rw [← ofItems_eq]
  exact .all_singleton _

theorem ofValue_negation (filter : Value) :
    (Filter.ofValue (negation filter)).Equivalent (.not (Filter.ofValue filter)) := .all_singleton _

/-- Testing against an unchecked filter is checking and testing. -/
theorem testValue_eq (source : Value) (search : Option TextSearch) (d : Value) :
    testValue source search d = (Filter.ofValue source).check >>= fun _ => (Filter.ofValue source).test search d := by
  unfold testValue ofValue
  dsimp only
  split <;> next h => exact (congrArg (· >>= fun _ => (Filter.ofValue source).test search d) h).symm

variable {search : Option TextSearch} {d source other : Value}

theorem testValue_eq_of_equivalent (h : (Filter.ofValue source).Equivalent (Filter.ofValue other)) :
    testValue source search d = testValue other search d := by
  rw [testValue_eq, testValue_eq, h.check, h.test]

theorem answersAgree_testValue
    (h : AnswersAgree ((Filter.ofValue source).test search d) ((Filter.ofValue other).test search d)) :
    AnswersAgree (testValue source search d) (testValue other search d) := by
  intro a b ha hb
  rw [testValue_eq, bind_eq_ok] at ha hb
  obtain ⟨-, -, ha⟩ := ha
  obtain ⟨-, -, hb⟩ := hb
  exact h a b ha hb

/-- Filters form a Boolean algebra, faults included: clauses are a conjunction, and negations move through conjunctions
    and disjunctions and cancel out. Clauses, and filters under an operator, may be put in another order: what is
    answered stays, if both orders answer. -/
theorem testValue_boolean_algebra (search : Option TextSearch) (d : Value) :
    (∀ fields : Document, testValue (.object fields) search d =
      testValue (conjunction (fields.map fun clause => .object [clause])) search d) ∧
    (∀ filters, testValue (rejection filters) search d = testValue (conjunction (filters.map negation)) search d) ∧
    (∀ filters, testValue (negation (disjunction filters)) search d = testValue (rejection filters) search d) ∧
    (∀ filter, testValue (negation (negation filter)) search d = testValue filter search d) ∧
    (∀ fields fields' : Document, fields.Perm fields' →
      AnswersAgree (testValue (.object fields) search d) (testValue (.object fields') search d)) ∧
    (∀ operator ∈ [conjunction, disjunction, rejection], ∀ filters filters', filters.Perm filters' →
      AnswersAgree (testValue (operator filters) search d) (testValue (operator filters') search d)) := by
  refine ⟨fun fields => ?_, fun filters => ?_, fun filters => ?_, fun filter => ?_, fun fields fields' h => ?_, ?_⟩
  · refine testValue_eq_of_equivalent (.trans ?_ (ofValue_conjunction _).symm)
    have hclauses := Equivalent.all_flatten (fields.map fun clause => ofFields [clause])
    rw [← ofFields_eq, List.map_map] at hclauses
    rw [List.map_map]
    exact hclauses
  · refine testValue_eq_of_equivalent ((ofValue_rejection filters).trans (.trans ?_ (ofValue_conjunction _).symm))
    -- De Morgan: no filter holds iff the negation of each of them does, and each negation is read as such.
    have hparts := Equivalent.all_map (fun filter => (ofValue_negation filter).symm) filters
    refine (Equivalent.not_any _).trans ?_
    rwa [List.map_map, List.map_map]
  · have hinner := (ofValue_negation (disjunction filters)).trans (ofValue_disjunction filters).not
    exact testValue_eq_of_equivalent (hinner.trans (ofValue_rejection filters).symm)
  · have hinner := (ofValue_negation (negation filter)).trans (ofValue_negation filter).not
    exact testValue_eq_of_equivalent (hinner.trans (.not_not _))
  · -- A clause may be read as several parts or none, so the parts are put in another order in blocks.
    refine answersAgree_testValue ?_
    rw [Filter.ofValue, Filter.ofValue, ofFields_eq, ofFields_eq fields']
    exact answersAgree_all (h.map _).flatten
  · refine List.forall_mem_cons.mpr ⟨fun filters filters' h => ?_, List.forall_mem_cons.mpr
      ⟨fun filters filters' h => ?_, List.forall_mem_singleton.mpr fun filters filters' h => ?_⟩⟩
    · refine answersAgree_testValue ?_
      rw [(ofValue_conjunction filters).test, (ofValue_conjunction filters').test]
      exact answersAgree_all (h.map _)
    · refine answersAgree_testValue ?_
      rw [(ofValue_disjunction filters).test, (ofValue_disjunction filters').test]
      exact answersAgree_any (h.map _)
    · refine answersAgree_testValue ?_
      rw [(ofValue_rejection filters).test, (ofValue_rejection filters').test]
      exact (answersAgree_any (h.map _)).not

/-- Clauses in both orders, and both orders answer. -/
theorem testValue_boolean_algebra_swapped :
    let clauses : Document := [("a", .int 1), ("$nor", .array [.object [("b", .int 1)], .object [("b", .int 2)]])]
    let d := Value.object [("a", .int 1), ("b", .int 3)]
    clauses.Perm clauses.reverse ∧ testValue (.object clauses) none d = .ok true ∧
      ∀ b, testValue (.object clauses.reverse) none d = .ok b → true = b := by
  intro clauses d
  have hperm : clauses.Perm clauses.reverse := (List.reverse_perm clauses).symm
  have hanswer : testValue (.object clauses) none d = .ok true := by rfl
  exact ⟨hperm, hanswer, fun b => (testValue_boolean_algebra none d).2.2.2.2.1 _ _ hperm true b hanswer⟩

end Query

end DocQuery
