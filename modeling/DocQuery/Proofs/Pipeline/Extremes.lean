import DocQuery.Proofs.Find.Sort
import DocQuery.Proofs.Number.Sum
import DocQuery.Proofs.Pipeline.Matching
import DocQuery.Proofs.Pipeline.Regrouping

/-! The least and the greatest value of a field. An accumulator that keeps the best value so far ends with the value of
    the first document that no other one precedes. This document is the head of a stable sort, so the first value after
    a sort is the same, also among values that compare equal. -/

namespace DocQuery

open Checked Pipeline

/-! ### Heads of stable sorts -/

section First

variable {α : Type} {cmp : α → α → Ordering} {xs ys : List α} {x y : α}

/-- No element precedes this one, and it is the first of those that tie with it. -/
structure IsFirst (cmp : α → α → Ordering) (xs : List α) (x : α) : Prop where
  least : ∀ y ∈ xs, cmp x y ≠ .gt
  found : xs.find? (cmp x · == .eq) = some x

theorem IsFirst.mem (h : IsFirst cmp xs x) : x ∈ xs := List.mem_of_find?_eq_some h.found

variable [Std.TransCmp cmp]

theorem IsFirst.unique (hx : IsFirst cmp xs x) (hy : IsFirst cmp xs y) : x = y := by
  have hyx : (cmp x y).swap ≠ .gt := by
    rw [← Std.OrientedCmp.eq_swap]
    exact hy.least x hx.mem
  have htie : cmp x y = .eq := by
    have hxy := hx.least y hy.mem
    cases hcmp : cmp x y <;> simp_all
  have hsame : (cmp x · == .eq) = (cmp y · == .eq) := funext fun z => by rw [Std.TransCmp.congr_left htie]
  exact Option.some.inj (hx.found.symm.trans (hsame ▸ hy.found))

theorem isFirst_singleton (x : α) : IsFirst cmp [x] x where
  least y hy := by
    obtain rfl := List.mem_singleton.mp hy
    simp [Std.ReflCmp.compare_self]
  found := List.find?_cons_of_pos (by simp [Std.ReflCmp.compare_self])

/-- One more element takes the place of the first one if it precedes that. -/
theorem IsFirst.concat (h : IsFirst cmp xs x) (y : α) : IsFirst cmp (xs ++ [y]) (if cmp y x = .lt then y else x) := by
  have hself : cmp y y = .eq := Std.ReflCmp.compare_self
  split
  · next hlt =>
    -- What precedes the least element precedes all, so no earlier one ties with it.
    have hless : ∀ z ∈ xs, cmp y z = .lt := fun z hz =>
      Std.TransCmp.lt_of_lt_of_isLE hlt (Ordering.isLE_iff_ne_gt.mpr (h.least z hz))
    refine ⟨fun z hz => ?_, ?_⟩
    · rcases List.mem_append.mp hz with hz | hz
      · simp [hless z hz]
      · obtain rfl := List.mem_singleton.mp hz
        simp [hself]
    · have hnone : xs.find? (cmp y · == .eq) = none := List.find?_eq_none.mpr fun z hz => by simp [hless z hz]
      simp [List.find?_append, hnone, hself]
  · next hnot =>
    have hle : cmp x y ≠ .gt := by rwa [ne_eq, Std.OrientedCmp.gt_iff_lt]
    refine ⟨fun z hz => ?_, by rw [List.find?_append, h.found, Option.some_or]⟩
    rcases List.mem_append.mp hz with hz | hz
    · exact h.least z hz
    · obtain rfl := List.mem_singleton.mp hz
      exact hle

/-- The head of a stable sort. -/
theorem StablySorted.isFirst (h : StablySorted cmp xs (y :: ys)) : IsFirst cmp xs y where
  least z hz := head_le_of_mem h.ordered (h.perm.mem_iff.mpr hz)
  found := by
    rw [← List.head?_filter, ← h.ties y, List.head?_filter]
    exact List.find?_cons_of_pos (by simp [Std.ReflCmp.compare_self])

end First

variable {name operator : String} {docs : List Value} {d v : Value} {read : Value → Value} {a : Accumulator}
  {search : Option TextSearch} {k : SortKey}

/-! ### One group of all documents -/

theorem Value.exists_object_of_get? (h : d.get? name = some v) :
    ∃ fields, d = .object fields ∧ Fields.get? fields name = some v := by
  cases d with
  | object fields => exact ⟨fields, rfl, h⟩
  | _ => cases h

/-- The stage that brings the values of a field to one value. -/
def gathered (operator name : String) : Value :=
  .object [("$group", .object [("_id", .null), ("m", .object [(operator, .string ("$" ++ name))])])]

namespace Grouping

/-- The group of all documents, with one accumulator for the values of a field. -/
def whole (a : Accumulator) (name : String) : Grouping :=
  { id := .null, fields := [⟨"m", a, .string ("$" ++ name)⟩] }

theorem feed_whole (hname : isFieldName name) (hdots : '.' ∉ name.toList) (hget : d.get? name = some v)
    (start a : Accumulator) : (whole start name).feed d [a] = (a.add v).map ([·]) := by
  obtain ⟨fields, rfl, -⟩ := Value.exists_object_of_get? hget
  have heval : Expr.evaluateOn (.string ("$" ++ name)) (.object fields) = .ok v := evaluateOn_field hname hdots hget
  rw [feed]
  simp only [whole, List.zip_cons_cons, List.zip_nil_left, List.mapM_cons, List.mapM_nil, heval]
  show (a.add v >>= fun b => pure [b]) = _
  cases a.add v <;> rfl

theorem foldlM_feed_whole (hname : isFieldName name) (hdots : '.' ∉ name.toList) (start : Accumulator)
    (hread : ∀ d ∈ docs, d.get? name = some (read d)) :
    docs.foldlM (fun accumulators d => (whole start name).feed d accumulators) [a] =
      ((docs.map read).foldlM Accumulator.add a).map ([·]) := by
  induction docs generalizing a with
  | nil => rfl
  | cons d rest ih =>
    obtain ⟨hd, hrest⟩ := List.forall_mem_cons.mp hread
    rw [List.map_cons, List.foldlM_cons, List.foldlM_cons, feed_whole hname hdots hd]
    cases a.add (read d) with
    | error => rfl
    | ok b => exact ih hrest

theorem ofValue_whole (hoperator : Accumulator.ofName? operator = some a) (hcount : operator ≠ "$count") :
    ofValue (.object [("_id", .null), ("m", .object [(operator, .string ("$" ++ name))])]) = .ok (whole a name) := by
  have hargument : GroupField.checkArgument operator (.string ("$" ++ name)) = .ok () := by
    unfold GroupField.checkArgument
    split
    · rfl
    · contradiction
    · rfl
  have hfield : GroupField.ofField ("m", .object [(operator, .string ("$" ++ name))]) =
      .ok ⟨"m", a, .string ("$" ++ name)⟩ := by
    have hm : checkFieldName "$group" "m" = .ok ["m"] := rfl
    rw [GroupField.ofField, hm]
    simp only [hoperator, hargument]
    rfl
  have hfields : [("_id", Value.null), ("m", .object [(operator, .string ("$" ++ name))])].filter (·.1 ≠ "_id") =
      [("m", .object [(operator, .string ("$" ++ name))])] := rfl
  rw [ofValue, hfields, List.mapM_cons, hfield]
  rfl

end Grouping

/-- The stage gives one document, with what the accumulator has come to. -/
theorem aggregate_gathered (hname : isFieldName name) (hdots : '.' ∉ name.toList)
    (hoperator : Accumulator.ofName? operator = some a) (hcount : operator ≠ "$count") (hsome : docs ≠ [])
    (hread : ∀ d ∈ docs, d.get? name = some (read d)) (hv : a.outcome (docs.map read) = .ok v) :
    aggregate (.array [gathered operator name]) { search } docs = .ok [.object [("_id", .null), ("m", v)]] := by
  obtain ⟨b, hb, hresult⟩ := bind_eq_ok.mp hv
  obtain rfl : b.result = v := Except.ok.inj hresult
  have hgroup : ∀ v, Stage.ofSpecification "$group" v = (Grouping.ofValue v).map .group := fun _ => rfl
  refine (aggregate_single rfl (hgroup _)).mpr ⟨_, Grouping.ofValue_whole hoperator hcount, ?_⟩
  have hid : ∀ d ∈ docs, (Grouping.whole a name).idOf d = .ok .null := fun _ _ => rfl
  have hgroups : docs.foldlM ((Grouping.whole a name).add none) [] = .ok [⟨.null, Value.null.key, [b]⟩] := by
    rw [Grouping.foldlM_add_run hsome hid List.not_mem_nil]
    show Except.map _ (docs.foldlM _ [a]) = _
    rw [Grouping.foldlM_feed_whole hname hdots a hread, hb]
    rfl
  show (do return (← docs.foldlM _ []).map _ : Checked (List Value)) = _
  rw [hgroups]
  rfl

/-! ### Extremes -/

namespace SortKey

/-- The key for a field with a direction. -/
def ofName (name : String) (descending : Bool) : SortKey := listed (name, if descending then -1 else 1)

theorem descending_ofName (name : String) (descending : Bool) : (ofName name descending).descending = descending := by
  cases descending <;> rfl

theorem ofValue_ofName (hname : isFieldName name) (descending : Bool) :
    ofValue (.object [(name, .int (if descending then -1 else 1))]) = .ok [ofName name descending] := by
  have hlistable : ∀ field ∈ [(name, if descending then (-1 : Int) else 1)], IsListable field := by
    refine List.forall_mem_singleton.mpr ⟨hname, ?_⟩
    cases descending <;> simp
  have hread := ofValue_listed hlistable (List.cons_ne_nil _ _)
  cases descending <;> exact hread

theorem read_ofName (hdots : '.' ∉ name.toList) (descending : Bool) (h : d.get? name = some v) :
    (ofName name descending).read d = v := by
  obtain ⟨fields, rfl, hfield⟩ := Value.exists_object_of_get? h
  have hget : Path.get? [name] (.object fields) = some v := by
    rw [Path.get?, Path.step?, hfield]
    rfl
  rw [read, ofName, listed, Path.ofString_of_not_mem hdots, hget]
  rfl

theorem compareBy_singleton (k : SortKey) : compareBy [k] = k.compare := by
  funext a b
  rw [compareBy, compareBy]
  cases k.compare a b <;> rfl

/-- The accumulator that keeps the value which comes first in the direction of the key. -/
def extreme (k : SortKey) : String := if k.descending then "$max" else "$min"

/-- How a value compares with one that it takes the place of. -/
def keeping (k : SortKey) : Ordering := if k.descending then .gt else .lt

theorem compare_eq_keeping {e : Value} : (k.read e).compare (k.read d) = k.keeping ↔ k.compare e d = .lt := by
  rw [compare_eq, keeping]
  cases k.descending with
  | true =>
    simp only [if_true]
    exact Std.OrientedCmp.gt_iff_lt
  | false => exact Iff.rfl

theorem ofName?_extreme (k : SortKey) : Accumulator.ofName? k.extreme = some (.extremum k.keeping none) := by
  rw [extreme, keeping]
  cases k.descending <;> rfl

theorem extreme_ne_count (k : SortKey) : k.extreme ≠ "$count" := by
  rw [extreme]
  cases k.descending <;> decide

end SortKey

namespace Accumulator

/-- An accumulator that keeps the value of the first of some documents ends with that of the first of all. -/
theorem foldlM_add_extremum {before rest : List Value} (h : IsFirst k.compare before d)
    (hrest : ∀ d ∈ rest, (k.read d).isNullish = false) :
    ∃ first, IsFirst k.compare (before ++ rest) first ∧
      (rest.map k.read).foldlM add (.extremum k.keeping (some (k.read d))) =
        .ok (.extremum k.keeping (some (k.read first))) := by
  induction rest generalizing before d with
  | nil => exact ⟨d, by rwa [List.append_nil], rfl⟩
  | cons e rest ih =>
    obtain ⟨he, hrest⟩ := List.forall_mem_cons.mp hrest
    obtain ⟨first, hfirst, hfold⟩ := ih (h.concat e) hrest
    refine ⟨first, by rwa [List.append_assoc] at hfirst, ?_⟩
    have hadd : add (.extremum k.keeping (some (k.read d))) (k.read e) =
        .ok (.extremum k.keeping (some (k.read (if k.compare e d = .lt then e else d)))) := by
      simp only [add, he, Bool.false_eq_true, if_false, SortKey.compare_eq_keeping]
      split <;> rfl
    rw [List.map_cons, List.foldlM_cons, hadd]
    exact hfold

/-- The accumulator of the extreme ends with the value of the first document. -/
theorem exists_outcome_extremum (hsome : docs ≠ []) (hdocs : ∀ d ∈ docs, (k.read d).isNullish = false) :
    ∃ first, IsFirst k.compare docs first ∧
      outcome (.extremum k.keeping none) (docs.map k.read) = .ok (k.read first) := by
  obtain ⟨d, rest, rfl⟩ := List.exists_cons_of_ne_nil hsome
  obtain ⟨hd, hrest⟩ := List.forall_mem_cons.mp hdocs
  obtain ⟨first, hfirst, hfold⟩ := foldlM_add_extremum (isFirst_singleton d) hrest
  have hadd : add (.extremum k.keeping none) (k.read d) = .ok (.extremum k.keeping (some (k.read d))) := by
    simp only [add, hd, Bool.false_eq_true, if_false]
  refine ⟨first, hfirst, ?_⟩
  rw [outcome, List.map_cons, List.foldlM_cons, hadd]
  show (List.foldlM add _ _ >>= _) = _
  rw [hfold]
  rfl

theorem foldlM_add_first (v : Value) (values : List Value) :
    values.foldlM add (.first (some v)) = .ok (.first (some v)) := by
  induction values with
  | nil => rfl
  | cons _ _ ih => exact ih

/-- The first value is that of the head. -/
theorem outcome_first (hv : v.isNullish = false) (rest : List Value) : outcome (.first none) (v :: rest) = .ok v := by
  have hadd : add (.first none) v = .ok (.first (some v)) := by
    cases v with
    | missing => exact nomatch hv
    | _ => rfl
  rw [outcome, List.foldlM_cons, hadd]
  show (List.foldlM add _ _ >>= _) = _
  rw [foldlM_add_first]
  rfl

end Accumulator

/-! ### Sorting before taking the first value -/

/-- The stage that sorts by a field. -/
def sorted (name : String) (descending : Bool) : Value :=
  .object [("$sort", .object [(name, .int (if descending then -1 else 1))])]

/-- The document has a value other than null in the field. -/
def Values (name : String) (d : Value) : Prop := ∃ v, d.get? name = some v ∧ v.isNullish = false

/-- A group of all documents keeps, of a field that has a value in each of them, the least value for an ascending
    direction and the greatest one for a descending direction. It is the value of the first document that no other one
    precedes, and the same that comes first after a sort by the field in this direction. -/
theorem aggregate_extreme (hname : isFieldName name) (hdots : '.' ∉ name.toList) (hsome : docs ≠ [])
    (hdocs : ∀ d ∈ docs, Values name d) (descending : Bool) (search : Option TextSearch) :
    ∃ first v, IsFirst (SortKey.ofName name descending).compare docs first ∧ first.get? name = some v ∧
      aggregate (.array [sorted name descending, gathered "$first" name]) { search } docs =
        .ok [.object [("_id", .null), ("m", v)]] ∧
      aggregate (.array [gathered (if descending then "$max" else "$min") name]) { search } docs =
        .ok [.object [("_id", .null), ("m", v)]] := by
  let k := SortKey.ofName name descending
  have hread : ∀ d ∈ docs, d.get? name = some (k.read d) ∧ (k.read d).isNullish = false := fun d hd => by
    obtain ⟨v, hget, hv⟩ := hdocs d hd
    rw [SortKey.read_ofName hdots descending hget]
    exact ⟨hget, hv⟩
  obtain ⟨first, hfirst, houtcome⟩ := Accumulator.exists_outcome_extremum hsome fun d hd => (hread d hd).2
  refine ⟨first, k.read first, hfirst, (hread first hfirst.mem).1, ?_, ?_⟩
  · -- The sort puts the same document in front.
    have hsorted : StablySorted k.compare docs (sortBy [k] docs) := by
      rw [← SortKey.compareBy_singleton]
      exact stablySorted_mergeSort docs
    have hne : sortBy [k] docs ≠ [] := fun hnil => hsome (hnil ▸ hsorted.perm).nil_eq.symm
    obtain ⟨head, rest, hhead⟩ := List.exists_cons_of_ne_nil hne
    have hkept : ∀ d ∈ head :: rest, d ∈ docs := fun d hd => hsorted.perm.mem_iff.mp (hhead ▸ hd)
    rw [hhead] at hsorted
    obtain rfl : head = first := hsorted.isFirst.unique hfirst
    refine (aggregate_pair ..).mpr ⟨_, aggregate_sort.mpr ⟨[k], SortKey.ofValue_ofName hname descending, hhead⟩, ?_⟩
    exact aggregate_gathered hname hdots rfl (by decide) (List.cons_ne_nil _ _) (fun d hd => (hread d (hkept d hd)).1)
      (Accumulator.outcome_first (hread head hfirst.mem).2 _)
  · have hoperator := SortKey.ofName?_extreme k
    have hcount := SortKey.extreme_ne_count k
    rw [SortKey.extreme, SortKey.descending_ofName] at hoperator hcount
    exact aggregate_gathered hname hdots hoperator hcount hsome (fun d hd => (hread d hd).1) houtcome

/-- The least value comes twice, first as a double and then as an integer. -/
theorem aggregate_extreme_tied :
    let two := Value.double (.ofNat 2)
    let docs := [.object [("n", .int 3)], .object [("n", two)], .object [("n", .int 2)]]
    (isFieldName "n" ∧ '.' ∉ "n".toList ∧ docs ≠ [] ∧ ∀ d ∈ docs, Values "n" d) ∧
      aggregate (.array [sorted "n" false, gathered "$first" "n"]) {} docs = .ok [.object [("_id", .null), ("m", two)]] ∧
      aggregate (.array [gathered "$min" "n"]) {} docs = .ok [.object [("_id", .null), ("m", two)]] := by
  intro two docs
  have hname : isFieldName "n" := by decide
  have hdots : '.' ∉ "n".toList := by decide
  have hsome : docs ≠ [] := List.cons_ne_nil _ _
  have hdocs : ∀ d ∈ docs, Values "n" d := by
    simp only [docs, List.forall_mem_cons]
    exact ⟨⟨_, rfl, rfl⟩, ⟨_, rfl, rfl⟩, ⟨_, rfl, rfl⟩, List.forall_mem_nil _⟩
  obtain ⟨first, v, hfirst, hget, hsorted, hleast⟩ := aggregate_extreme hname hdots hsome hdocs false none
  have hsecond : IsFirst (SortKey.ofName "n" false).compare docs (.object [("n", two)]) := by
    constructor
    · simp only [docs, List.forall_mem_cons]
      exact ⟨by decide +kernel, by decide +kernel, by decide +kernel, List.forall_mem_nil _⟩
    · rw [List.find?_cons_of_neg (by decide +kernel), List.find?_cons_of_pos (by decide +kernel)]
  have htwo : (Value.object [("n", two)]).get? "n" = some two := rfl
  rw [hfirst.unique hsecond, htwo, Option.some.injEq] at hget
  rw [← hget] at hsorted hleast
  exact ⟨⟨hname, hdots, hsome, hdocs⟩, hsorted, hleast⟩

end DocQuery
