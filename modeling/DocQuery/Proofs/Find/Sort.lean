import Mathlib.Data.List.Permutation
import DocQuery.Proofs.Find
import DocQuery.Proofs.Path.Prefix
import DocQuery.Proofs.Stage.Sort

/-! Sorted searches. The fields to sort by are listed with their directions and reach the sort as the fields of one
    object, where a field that is listed twice keeps its first place and has its last direction. The search sorts as
    listed if that direction is the listed one wherever a field can tell documents apart, and only then. -/

namespace DocQuery

open Checked Pipeline

variable {keys before after : List (String × Int)} {field : String × Int} {name : String} {direction : Int}
  {a b : Value} {out : List Value}

/-! ### Listed fields -/

namespace SortKey

/-- The key that a field with its direction stands for. -/
def listed (field : String × Int) : SortKey where
  path := Path.ofString field.1
  descending := field.2 == -1

/-- The field can be sorted by: it has a valid name, and its direction is 1 or -1. -/
def IsListable (field : String × Int) : Prop := isFieldName field.1 ∧ (field.2 = 1 ∨ field.2 = -1)

theorem ofField_listed (h : IsListable field) : ofField (field.1, .int (Int64.ofInt field.2)) = .ok (listed field) := by
  obtain ⟨name, direction⟩ := field
  obtain ⟨hname, hdirection⟩ := h
  have hpath : checkFieldName "$sort" name = .ok (Path.ofString name) := if_pos hname
  rcases hdirection with rfl | rfl
  · exact bind_eq_ok.mpr ⟨false, rfl, bind_eq_ok.mpr ⟨_, hpath, rfl⟩⟩
  · exact bind_eq_ok.mpr ⟨true, rfl, bind_eq_ok.mpr ⟨_, hpath, rfl⟩⟩

/-- What the sort reads from the fields of an object that are all listable. -/
theorem ofValue_listed (h : ∀ field ∈ keys, IsListable field) (hkeys : keys ≠ []) :
    ofValue (.object (keys.map fun (name, direction) => (name, .int (Int64.ofInt direction)))) =
      .ok (keys.map listed) := by
  have hfields : (keys.map fun (name, direction) => (name, Value.int (Int64.ofInt direction))).isEmpty = false := by
    simpa using hkeys
  rw [ofValue, hfields, if_neg (by simp), List.mapM_map]
  exact mapM_ok fun field hfield => ofField_listed (h field hfield)

end SortKey

open SortKey

/-! ### What decides -/

/-- Keys in front that find the documents equal do not count. -/
theorem compareBy_skip {earlier later : List SortKey} {k : SortKey}
    (hearlier : ∀ e ∈ earlier, (e.read a).compare (e.read b) = .eq) (hk : k.compare a b ≠ .eq) :
    compareBy (earlier ++ k :: later) a b = k.compare a b := by
  induction earlier with
  | nil =>
    rw [List.nil_append, compareBy]
    cases h : k.compare a b with
    | eq => exact absurd h hk
    | lt | gt => rfl
  | cons e earlier ih =>
    obtain ⟨he, hearlier⟩ := List.forall_mem_cons.mp hearlier
    have hcompare : e.compare a b = .eq := compare_eq_eq.mpr (Value.equal_iff.mpr he)
    rw [List.cons_append, compareBy, hcompare]
    exact ih hearlier

/-- No field in front is the named one or on the way to it. Documents that are equal at such a field are equal at the
    named one, so that it would decide nothing. -/
def CanDecide (before : List (String × Int)) (name : String) : Prop :=
  ∀ e ∈ before, ¬Path.ofString e.1 <+: Path.ofString name

namespace CanDecide

variable {earlier : List (String × Int)}

theorem not_mem (h : CanDecide before name) : name ∉ Fields.names before := fun hmem => by
  obtain ⟨e, he, rfl⟩ := List.mem_map.mp hmem
  exact h e he List.prefix_rfl

theorem of_subset (h : CanDecide before name) (hnames : Fields.names earlier ⊆ Fields.names before) :
    CanDecide earlier name := fun e he => by
  obtain ⟨e', he', hsame⟩ := List.mem_map.mp (hnames (List.mem_map_of_mem he))
  exact hsame ▸ h e' he'

end CanDecide

/-- Wherever a field can decide, it is listed with the direction that is listed last for its name. -/
def DirectionsAgree (keys : List (String × Int)) : Prop :=
  ∀ before name direction after, keys = before ++ (name, direction) :: after → CanDecide before name →
    Fields.get? keys.reverse name = some direction

/-- Lists that do not contradict themselves. -/
theorem directionsAgree_of_consistent (h : ∀ f ∈ keys, ∀ g ∈ keys, f.1 = g.1 → f.2 = g.2) : DirectionsAgree keys := by
  rintro before name direction after rfl -
  have hmem : (name, direction) ∈ before ++ (name, direction) :: after := List.mem_append_right _ List.mem_cons_self
  cases hget : Fields.get? (before ++ (name, direction) :: after).reverse name with
  | none =>
    have hnone := List.find?_eq_none.mp (Option.map_eq_none_iff.mp hget) _ (List.mem_reverse.mpr hmem)
    exact absurd (beq_self_eq_true name) hnone
  | some last => exact congrArg some (h _ (List.mem_reverse.mp (Fields.mem_of_get?_eq_some hget)) _ hmem rfl)

/-- Fields of the same names find documents equal, whatever the directions. -/
theorem tied_of_subset {earlier : List (String × Int)}
    (htied : ∀ e ∈ before, ((listed e).read a).compare ((listed e).read b) = .eq)
    (hnames : Fields.names earlier ⊆ Fields.names before) :
    ∀ e ∈ earlier, ((listed e).read a).compare ((listed e).read b) = .eq := fun e he => by
  obtain ⟨e', he', hsame⟩ := List.mem_map.mp (hnames (List.mem_map_of_mem he))
  have hpath : (listed e').path = (listed e).path := congrArg Path.ofString hsame
  have htie := htied e' he'
  rwa [SortKey.read, SortKey.read, hpath] at htie

/-- A field on the way to the one that decides finds the documents equal, and so would the one that decides. -/
theorem canDecide_of_tied (htied : ∀ e ∈ before, ((listed e).read a).compare ((listed e).read b) = .eq)
    (hne : (listed (name, direction)).compare a b ≠ .eq) : CanDecide before name := fun e he hbegins => by
  refine hne (compare_eq_eq.mpr (Value.equal_iff.mpr ?_))
  exact Path.compare_read_of_beginning hbegins (htied e he)

/-- Where the directions agree, the fields of the object compare documents as the list does. -/
theorem compareBy_ofList (h : DirectionsAgree keys) :
    compareBy ((Fields.ofList keys).map listed) = compareBy (keys.map listed) := by
  funext a b
  -- Either all fields tie, in both lists, or there is a first one that does not.
  cases hfind : keys.find? (fun field => (listed field).compare a b != .eq) with
  | none =>
    have htied : ∀ field ∈ keys, ((listed field).read a).equal ((listed field).read b) := fun field hfield => by
      simpa [compare_eq_eq] using List.find?_eq_none.mp hfind field hfield
    rw [compareBy_eq_eq.mpr (List.forall_mem_map.mpr htied)]
    exact compareBy_eq_eq.mpr (List.forall_mem_map.mpr fun field hfield => htied field (Fields.mem_of_mem_ofList hfield))
  | some field =>
    obtain ⟨name, direction⟩ := field
    obtain ⟨hdecides, before, after, rfl, hbefore⟩ := List.find?_eq_some_iff_append.mp hfind
    have hne : (listed (name, direction)).compare a b ≠ .eq := bne_iff_ne.mp hdecides
    have htied : ∀ e ∈ before, ((listed e).read a).compare ((listed e).read b) = .eq := fun e he => by
      simpa [compare_eq_eq, Value.equal_iff] using hbefore e he
    have hdecide : CanDecide before name := canDecide_of_tied htied hne
    -- In the object the name keeps its first place, and what stands before it there ties as well.
    obtain ⟨earlier, last, later, hfields, hearlier, hlast⟩ := Fields.ofList_split hdecide.not_mem direction after
    obtain rfl : last = direction := Option.some.inj (hlast.symm.trans (h before name direction after rfl hdecide))
    have htied' := tied_of_subset htied hearlier
    rw [hfields, List.map_append, List.map_append, List.map_cons, List.map_cons,
      compareBy_skip (List.forall_mem_map.mpr htied) hne, compareBy_skip (List.forall_mem_map.mpr htied') hne]

/-! ### Searching -/

/-- The search for these fields, with no other option, finds the documents that pass the filter, in the order of the
    keys and otherwise as they came. -/
def FindsSortedBy (keys : List (String × Int)) (order : List SortKey) : Prop :=
  ∀ filter query search docs, Query.ofValue filter = .ok query → (∀ d ∈ docs, ∃ b, query.test search d = .ok b) →
    ∃ out, find filter { sort := some keys } search docs = .ok out ∧
      StablySorted (compareBy order) (docs.filter fun d => (query.test search d).holds) out

theorem aggregate_sorting (h : ∀ field ∈ keys, IsListable field) (docs : List Value) :
    aggregate (.array ({ sort := some keys } : FindOptions).stages) {} docs =
      .ok (sortBy ((Fields.ofList keys).map listed) docs) := by
  by_cases hkeys : keys = []
  · subst hkeys
    have hsorted : sortBy [] docs = docs := List.mergeSort_of_pairwise (List.pairwise_of_forall fun _ _ => rfl)
    exact (aggregate_nil rfl).mpr hsorted.symm
  · have hread (v : Value) : Stage.ofSpecification "$sort" v = (SortKey.ofValue v).map .sort := rfl
    have hstages : ({ sort := some keys } : FindOptions).stages = [FindOptions.sortStage keys] := by
      simp [FindOptions.stages, hkeys]
    rw [hstages, FindOptions.sortStage]
    refine (aggregate_certain rfl (hread _) fun _ => rfl).mpr ⟨_, ?_, rfl⟩
    have hfields := Fields.map_ofList (fun direction => Value.int (Int64.ofInt direction)) keys
    rw [← hfields]
    exact ofValue_listed (fun field hfield => h field (Fields.mem_of_mem_ofList hfield)) (Fields.ofList_ne_nil hkeys)

theorem findsSortedBy_ofList (h : ∀ field ∈ keys, IsListable field) :
    FindsSortedBy keys ((Fields.ofList keys).map listed) := by
  intro filter query search docs hquery htest
  refine ⟨_, find_eq_ok.mpr ⟨query, hquery, ?_⟩, stablySorted_mergeSort _⟩
  rw [if_neg (by simp)]
  exact ⟨_, Stage.keep_eq_ok.mpr ⟨htest, rfl⟩, aggregate_sorting h _⟩

/-- Two documents do not tell two orders apart that are both followed. -/
theorem StablySorted.not_opposed {cmp cmp' : Value → Value → Ordering} [Std.TransCmp cmp]
    (h : StablySorted cmp [a, b] out) (h' : StablySorted cmp' [a, b] out) (hlt : cmp a b = .lt) : cmp' a b ≠ .gt := by
  rcases List.perm_pair.mp h.perm with rfl | rfl
  · exact List.rel_of_pairwise_cons h'.ordered List.mem_cons_self
  · have hswap : cmp b a = (cmp a b).swap := Std.OrientedCmp.eq_swap
    refine absurd ?_ (List.rel_of_pairwise_cons h.ordered List.mem_cons_self)
    rw [hswap, hlt]
    rfl

/-- Two documents that differ in nothing but the field that a path leads to. -/
def atPath (name : String) (n : Int64) : Value := (Path.ofString name).nest (.int n)

theorem compare_atPath (name : String) (direction : Int) :
    (listed (name, direction)).compare (atPath name 1) (atPath name 2) = if direction == -1 then .gt else .lt := by
  unfold SortKey.compare listed atPath
  rw [Path.get?_nest, Path.get?_nest]
  rfl

theorem read_atPath {field : String × Int} (h : ¬Path.ofString field.1 <+: Path.ofString name) (n : Int64) :
    (listed field).read (atPath name n) = .missing := by
  have hget : (Path.ofString field.1).get? (atPath name n) = none := Path.get?_nest_eq_none h fun _ => rfl
  rw [SortKey.read, listed, hget]
  rfl

/-- Documents that only the one field tells apart are ordered by it. -/
theorem compareBy_atPath (hdecide : CanDecide before name) (direction : Int) (after : List (String × Int)) :
    compareBy ((before ++ (name, direction) :: after).map listed) (atPath name 1) (atPath name 2) =
      if direction == -1 then .gt else .lt := by
  have htied : ∀ e ∈ before.map listed, (e.read (atPath name 1)).compare (e.read (atPath name 2)) = .eq :=
    List.forall_mem_map.mpr fun e he => by
      rw [read_atPath (hdecide e he), read_atPath (hdecide e he)]
      rfl
  have hne : (listed (name, direction)).compare (atPath name 1) (atPath name 2) ≠ .eq := by
    rw [compare_atPath]
    split <;> exact nofun
  rw [List.map_append, List.map_cons, compareBy_skip htied hne, compare_atPath]

/-- A search that sorts as listed sorts two documents for each field that can tell documents apart. -/
theorem directionsAgree_of_findsSortedBy (h : ∀ field ∈ keys, IsListable field)
    (hsorts : FindsSortedBy keys (keys.map listed)) : DirectionsAgree keys := by
  rintro before name direction after rfl hdecide
  obtain ⟨earlier, last, later, hfields, hearlier, hlast⟩ := Fields.ofList_split hdecide.not_mem direction after
  obtain ⟨query, hquery, htest⟩ : ∃ query, Query.ofValue (.object []) = .ok query ∧
      ∀ d, query.test none d = .ok true := ⟨_, rfl, fun _ => rfl⟩
  -- Two documents that differ only in this field; the two directions put them in opposite orders.
  let docs := [atPath name 1, atPath name 2]
  have hdocs : docs.filter (fun d => (query.test none d).holds) = docs :=
    List.filter_eq_self.mpr fun d _ => by rw [htest]; rfl
  obtain ⟨out, hfind, hout⟩ := hsorts (.object []) query none docs hquery fun d _ => ⟨true, htest d⟩
  obtain ⟨out', hfind', hout'⟩ := findsSortedBy_ofList h (.object []) query none docs hquery fun d _ => ⟨true, htest d⟩
  obtain rfl : out' = out := Except.ok.inj (hfind'.symm.trans hfind)
  rw [hdocs] at hout hout'
  rw [hfields] at hout'
  have hlisted := compareBy_atPath hdecide direction after
  have hfound := compareBy_atPath (hdecide.of_subset hearlier) last later
  have hdirection : direction = 1 ∨ direction = -1 := (h (name, direction) (by simp)).2
  have hlastDirection : last = 1 ∨ last = -1 := (h (name, last) (Fields.mem_of_mem_ofList (by simp [hfields]))).2
  rcases hdirection with rfl | rfl <;> rcases hlastDirection with rfl | rfl
  · exact hlast
  · exact absurd hfound (hout.not_opposed hout' hlisted)
  · exact absurd hlisted (hout'.not_opposed hout hfound)
  · exact hlast

/-- A search sorts by each of its fields at the first place where it is listed, in the direction that is listed last.
    This is to sort as listed, field by field and each in its own direction, iff the directions agree wherever a field
    can tell documents apart; so it is if no field is listed with two directions. -/
theorem findsSortedBy_iff_directionsAgree (h : ∀ field ∈ keys, IsListable field) :
    FindsSortedBy keys ((Fields.ofList keys).map listed) ∧
      (FindsSortedBy keys (keys.map listed) ↔ DirectionsAgree keys) ∧
        ((∀ f ∈ keys, ∀ g ∈ keys, f.1 = g.1 → f.2 = g.2) → FindsSortedBy keys (keys.map listed)) := by
  have hfields := findsSortedBy_ofList h
  have hsorts (hagree : DirectionsAgree keys) : FindsSortedBy keys (keys.map listed) := by
    intro filter query search docs hquery htest
    have hsorted := hfields filter query search docs hquery htest
    rwa [compareBy_ofList hagree] at hsorted
  exact ⟨hfields, ⟨directionsAgree_of_findsSortedBy h, hsorts⟩, fun hconsistent =>
    hsorts (directionsAgree_of_consistent hconsistent)⟩

/-- A field that is listed with two directions, behind the object that it is in, where it decides nothing. -/
theorem findsSortedBy_iff_directionsAgree_nested :
    let keys := [("size", 1), ("size.width", -1), ("size.width", 1)]
    (∀ field ∈ keys, IsListable field) ∧ FindsSortedBy keys (keys.map listed) := by
  intro keys
  have hlistable : ∀ field ∈ keys, IsListable field := by
    simp only [keys, List.forall_mem_cons, IsListable]
    decide
  refine ⟨hlistable, (findsSortedBy_iff_directionsAgree hlistable).2.1.mpr ?_⟩
  rintro (_ | ⟨first, before⟩) name direction after hkeys hdecide
  · obtain ⟨⟨⟩, rfl⟩ := List.cons.inj hkeys
    rfl
  · obtain ⟨rfl, hrest⟩ := List.cons.inj hkeys
    have hwidth : ∀ field ∈ [("size.width", (-1 : Int)), ("size.width", 1)], field.1 = "size.width" := by decide
    rw [hrest] at hwidth
    have hname : name = "size.width" := hwidth _ (List.mem_append_right before List.mem_cons_self)
    exact absurd (by decide) (hname ▸ hdecide ("size", 1) List.mem_cons_self)

/-- Two documents in the order in which they are listed to be found, which is not the one in which they are found. -/
theorem not_findsSortedBy_listed :
    let keys := [("a", 1), ("a", -1)]
    let docs := [Value.object [("a", .int 1)], .object [("a", .int 2)]]
    find (.object []) { sort := some keys } none docs = .ok docs.reverse ∧
      StablySorted (compareBy (keys.map listed)) docs docs ∧ ¬FindsSortedBy keys (keys.map listed) := by
  intro keys docs
  have hlistable : ∀ field ∈ keys, IsListable field := by
    simp only [keys, List.forall_mem_cons, IsListable]
    decide
  refine ⟨?_, ⟨.refl _, by decide, fun _ => rfl⟩, fun hsorts => ?_⟩
  · obtain ⟨out, hfind, hout⟩ :=
      findsSortedBy_ofList hlistable (.object []) _ none docs rfl fun _ _ => ⟨true, rfl⟩
    have hperm : out.Perm docs := hout.perm
    -- Two documents have only two orders, and the one in which they are listed is not sorted.
    rcases List.perm_pair.mp hperm with rfl | rfl
    · exact absurd hout.ordered (by decide)
    · exact hfind
  · have hlast := directionsAgree_of_findsSortedBy hlistable hsorts [] "a" 1 [("a", -1)] rfl (List.forall_mem_nil _)
    exact absurd hlast (by decide)

end DocQuery
