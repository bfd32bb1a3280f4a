import DocQuery.Proofs.Filter.Algebra
import DocQuery.Proofs.Pipeline.Single
import DocQuery.Proofs.Stage.Sort

/-! Filters in pipelines. Where every document can be tested, a filter keeps those that pass, in their order. So it may
    stand before a sort or behind it, and two filters one after the other are one filter that asks for both. -/

namespace DocQuery

open Checked Pipeline

variable {search : Option TextSearch} {source : Value} {query p q : Query} {docs out : List Value} {f g spec : Value}
  {keys : List SortKey}

/-! ### Filters that have been checked -/

namespace Query

theorem ofValue_eq_ok (h : ofValue source = .ok query) : (Filter.ofValue source).check = .ok () ∧
    ∀ search d, query.test search d = (Filter.ofValue source).test search d := by
  unfold ofValue at h
  dsimp only at h
  split at h
  · next hcheck =>
    cases h
    exact ⟨hcheck, fun _ _ => rfl⟩
  · cases h

theorem exists_ofValue (h : (Filter.ofValue source).check = .ok ()) : ∃ query, ofValue source = .ok query := by
  unfold ofValue
  dsimp only
  split
  · exact ⟨_, rfl⟩
  · next herror => exact nomatch h.symm.trans herror

/-- Does the document pass? A document that cannot be tested does not. -/
def passes (query : Query) (search : Option TextSearch) (d : Value) : Bool := (query.test search d).holds

/-- The document can be tested. -/
def Decides (query : Query) (search : Option TextSearch) (d : Value) : Prop := ∃ b, query.test search d = .ok b

/-- The filter that asks for both. -/
theorem exists_both (hp : ofValue f = .ok p) (hq : ofValue g = .ok q) :
    ∃ both, ofValue (conjunction [f, g]) = .ok both ∧ ∀ search d, p.Decides search d → q.Decides search d →
      both.Decides search d ∧ both.passes search d = (p.passes search d && q.passes search d) := by
  obtain ⟨hpcheck, hptest⟩ := ofValue_eq_ok hp
  obtain ⟨hqcheck, hqtest⟩ := ofValue_eq_ok hq
  have hequivalent := ofValue_conjunction [f, g]
  have hcheck : (Filter.ofValue (conjunction [f, g])).check = .ok () := by
    rw [hequivalent.check, List.map_cons, List.map_cons, List.map_nil, Filter.check, checkFilters, checkFilters,
      checkFilters, hpcheck, hqcheck]
    rfl
  obtain ⟨both, hboth⟩ := exists_ofValue hcheck
  refine ⟨both, hboth, ?_⟩
  -- With an answer of both filters, none of them stops the test before the other one is asked.
  rintro search d ⟨a, ha⟩ ⟨b, hb⟩
  have htest : both.test search d = .ok (a && b) := by
    rw [(ofValue_eq_ok hboth).2, hequivalent.test, List.map_cons, List.map_cons, List.map_nil, Filter.test, testAll,
      testAll_singleton, ← hptest, ← hqtest, ha, hb]
    cases a <;> rfl
  refine ⟨⟨_, htest⟩, ?_⟩
  rw [passes, passes, passes, htest, ha, hb]
  rfl

end Query

namespace Pipeline

/-! ### Single stages -/

theorem aggregate_match (hquery : Query.ofValue source = .ok query) (hdecides : ∀ d ∈ docs, query.Decides search d) :
    aggregate (.array [.object [("$match", source)]]) { search } docs = .ok (docs.filter (query.passes search)) := by
  have hread : Stage.ofSpecification "$match" source = (Query.ofValue source).map .filter := rfl
  exact (aggregate_single rfl hread).mpr ⟨query, hquery, Stage.keep_eq_ok.mpr ⟨hdecides, rfl⟩⟩

theorem aggregate_sort : aggregate (.array [.object [("$sort", spec)]]) { search } docs = .ok out ↔
    ∃ keys, SortKey.ofValue spec = .ok keys ∧ sortBy keys docs = out := by
  have hread : Stage.ofSpecification "$sort" spec = (SortKey.ofValue spec).map .sort := rfl
  exact aggregate_certain rfl hread fun _ => rfl

/-! ### Two stages -/

theorem aggregate_pair (first second : Value) : aggregate (.array [first, second]) { search } docs = .ok out ↔
    ∃ between, aggregate (.array [first]) { search } docs = .ok between ∧
      aggregate (.array [second]) { search } between = .ok out := aggregate_append_eq_ok (p := [first]) rfl

theorem aggregate_match_sort (hp : Query.ofValue f = .ok p) (hdecides : ∀ d ∈ docs, p.Decides search d) :
    aggregate (.array [.object [("$match", f)], .object [("$sort", spec)]]) { search } docs = .ok out ↔
      ∃ keys, SortKey.ofValue spec = .ok keys ∧ sortBy keys (docs.filter (p.passes search)) = out := by
  simp only [aggregate_pair, aggregate_match hp hdecides, Except.ok.injEq, exists_eq_left', aggregate_sort]

theorem aggregate_sort_match (hp : Query.ofValue f = .ok p) (hdecides : ∀ d ∈ docs, p.Decides search d) :
    aggregate (.array [.object [("$sort", spec)], .object [("$match", f)]]) { search } docs = .ok out ↔
      ∃ keys, SortKey.ofValue spec = .ok keys ∧ (sortBy keys docs).filter (p.passes search) = out := by
  have hsorted (keys : List SortKey) : ∀ d ∈ sortBy keys docs, p.Decides search d := fun d hd =>
    hdecides d ((List.mergeSort_perm ..).mem_iff.mp hd)
  simp only [aggregate_pair, aggregate_sort]
  constructor
  · rintro ⟨_, ⟨keys, hkeys, rfl⟩, hout⟩
    rw [aggregate_match hp (hsorted keys)] at hout
    exact ⟨keys, hkeys, Except.ok.inj hout⟩
  · rintro ⟨keys, hkeys, rfl⟩
    exact ⟨_, ⟨keys, hkeys, rfl⟩, aggregate_match hp (hsorted keys)⟩

theorem aggregate_match_match (hp : Query.ofValue f = .ok p) (hq : Query.ofValue g = .ok q)
    (hpdecides : ∀ d ∈ docs, p.Decides search d) (hqdecides : ∀ d ∈ docs, q.Decides search d) :
    aggregate (.array [.object [("$match", f)], .object [("$match", g)]]) { search } docs =
      .ok (docs.filter fun d => p.passes search d && q.passes search d) := by
  have hkept : ∀ d ∈ docs.filter (p.passes search), q.Decides search d := fun d hd =>
    hqdecides d (List.mem_of_mem_filter hd)
  refine (aggregate_pair ..).mpr ⟨_, aggregate_match hp hpdecides, ?_⟩
  rw [aggregate_match hq hkept, List.filter_filter]
  simp only [Bool.and_comm]

theorem aggregate_match_both (hp : Query.ofValue f = .ok p) (hq : Query.ofValue g = .ok q)
    (hpdecides : ∀ d ∈ docs, p.Decides search d) (hqdecides : ∀ d ∈ docs, q.Decides search d) :
    aggregate (.array [.object [("$match", Query.conjunction [f, g])]]) { search } docs =
      .ok (docs.filter fun d => p.passes search d && q.passes search d) := by
  obtain ⟨both, hboth, htest⟩ := Query.exists_both hp hq
  have hdocs := fun d hd => htest search d (hpdecides d hd) (hqdecides d hd)
  rw [aggregate_match hboth fun d hd => (hdocs d hd).1]
  exact congrArg Except.ok (List.filter_congr fun d hd => (hdocs d hd).2)

/-! ### Moving and fusing -/

/-- A filter that can test every document may stand before a sort or behind it, and two such filters are one that asks
    for both. The documents that pass come out as a stable sort of them, if the keys of the sort can be read, and
    those that pass both filters come out in their order. -/
theorem aggregate_match_moves_and_fuses (hp : Query.ofValue f = .ok p) (hq : Query.ofValue g = .ok q)
    (hpdecides : ∀ d ∈ docs, p.Decides search d) (hqdecides : ∀ d ∈ docs, q.Decides search d) :
    (∀ spec, (∀ out,
        aggregate (.array [.object [("$match", f)], .object [("$sort", spec)]]) { search } docs = .ok out ↔
          aggregate (.array [.object [("$sort", spec)], .object [("$match", f)]]) { search } docs = .ok out) ∧
      ∀ keys, SortKey.ofValue spec = .ok keys → ∃ out,
        aggregate (.array [.object [("$match", f)], .object [("$sort", spec)]]) { search } docs = .ok out ∧
          StablySorted (compareBy keys) (docs.filter (p.passes search)) out) ∧
    ∃ out, aggregate (.array [.object [("$match", f)], .object [("$match", g)]]) { search } docs = .ok out ∧
      aggregate (.array [.object [("$match", Query.conjunction [f, g])]]) { search } docs = .ok out ∧
        out = docs.filter fun d => p.passes search d && q.passes search d := by
  refine ⟨fun spec => ⟨fun out => ?_, fun keys hkeys => ⟨_, ?_, stablySorted_mergeSort _⟩⟩, ?_⟩
  · rw [aggregate_match_sort hp hpdecides, aggregate_sort_match hp hpdecides]
    simp only [filter_sortBy]
  · exact (aggregate_match_sort hp hpdecides).mpr ⟨keys, hkeys, rfl⟩
  · exact ⟨_, aggregate_match_match hp hq hpdecides hqdecides, aggregate_match_both hp hq hpdecides hqdecides, rfl⟩

/-- Cups that tie, one that is too dear, and a bowl. -/
theorem aggregate_match_moves_and_fuses_cups :
    let f := Value.object [("price", .object [("$lt", .int 5)])]
    let g := Value.object [("name", .string "cup")]
    let spec := Value.object [("price", .int (-1))]
    let item (name : String) (price : Int64) := Value.object [("name", .string name), ("price", .int price)]
    let docs := [item "cup" 3, item "cup" 7, item "cup" 1, item "bowl" 3]
    ∃ p q, (Query.ofValue f = .ok p ∧ Query.ofValue g = .ok q ∧ (∀ d ∈ docs, p.Decides none d) ∧
        ∀ d ∈ docs, q.Decides none d) ∧
      (∃ out, aggregate (.array [.object [("$match", f)], .object [("$sort", spec)]]) {} docs = .ok out ∧
        aggregate (.array [.object [("$sort", spec)], .object [("$match", f)]]) {} docs = .ok out ∧
          StablySorted (compareBy [⟨["price"], true⟩]) (docs.filter (p.passes none)) out) ∧
      ∃ out, aggregate (.array [.object [("$match", f)], .object [("$match", g)]]) {} docs = .ok out ∧
        aggregate (.array [.object [("$match", Query.conjunction [f, g])]]) {} docs = .ok out ∧
          out = docs.filter fun d => p.passes none d && q.passes none d := by
  intro f g spec item docs
  obtain ⟨p, hp, hpdecides⟩ : ∃ p, Query.ofValue f = .ok p ∧ ∀ d ∈ docs, p.Decides none d := by
    refine ⟨_, rfl, ?_⟩
    simp only [docs, List.forall_mem_cons]
    exact ⟨⟨_, rfl⟩, ⟨_, rfl⟩, ⟨_, rfl⟩, ⟨_, rfl⟩, List.forall_mem_nil _⟩
  obtain ⟨q, hq, hqdecides⟩ : ∃ q, Query.ofValue g = .ok q ∧ ∀ d ∈ docs, q.Decides none d := by
    refine ⟨_, rfl, ?_⟩
    simp only [docs, List.forall_mem_cons]
    exact ⟨⟨_, rfl⟩, ⟨_, rfl⟩, ⟨_, rfl⟩, ⟨_, rfl⟩, List.forall_mem_nil _⟩
  have hkeys : SortKey.ofValue spec = .ok [⟨["price"], true⟩] := rfl
  obtain ⟨hmoves, hfuses⟩ := aggregate_match_moves_and_fuses hp hq hpdecides hqdecides
  obtain ⟨hsame, hsorts⟩ := hmoves spec
  obtain ⟨out, hout, hsorted⟩ := hsorts _ hkeys
  exact ⟨p, q, ⟨hp, hq, hpdecides, hqdecides⟩, ⟨out, hout, (hsame out).mp hout, hsorted⟩, hfuses⟩

end Pipeline

end DocQuery
