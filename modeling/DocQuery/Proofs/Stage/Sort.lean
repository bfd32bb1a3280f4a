import Mathlib.Data.List.Pairwise
import DocQuery.Proofs.Value.Order
import DocQuery.Stage

/-! Sorting documents. The keys compare documents by a total preorder, in which the first key decides where the
    documents differ. A sort leaves the one list of its documents that is in order and keeps documents that compare
    equal as they came. -/

namespace DocQuery

/-! ### Stable sorts -/

section StablySorted

variable {α : Type} {cmp : α → α → Ordering} {xs ys zs : List α}

/-- The second list holds what the first one holds, in order, and elements that compare equal as they came. -/
structure StablySorted (cmp : α → α → Ordering) (xs ys : List α) : Prop where
  perm : ys.Perm xs
  ordered : ys.Pairwise fun y z => cmp y z ≠ .gt
  ties : ∀ x, ys.filter (cmp x · == .eq) = xs.filter (cmp x · == .eq)

variable [Std.TransCmp cmp]

theorem stablySorted_mergeSort (xs : List α) : StablySorted cmp xs (xs.mergeSort fun x y => cmp x y != .gt) := by
  have htrans : ∀ x y z, (cmp x y != .gt) = true → (cmp y z != .gt) = true → (cmp x z != .gt) = true := by
    intro x y z hxy hyz
    rw [bne_iff_ne] at hxy hyz ⊢
    exact Std.TransCmp.le_trans hxy hyz
  have htotal : ∀ x y, ((cmp x y != .gt) || (cmp y x != .gt)) = true := by
    intro x y
    have hswap : cmp y x = (cmp x y).swap := Std.OrientedCmp.eq_swap
    rw [hswap]
    cases cmp x y <;> rfl
  have hperm := List.mergeSort_perm xs fun x y => cmp x y != .gt
  refine ⟨hperm, (List.pairwise_mergeSort htrans htotal xs).imp bne_iff_ne.mp, fun x => ?_⟩
  -- Elements that tie are in order as they came, so they are kept as they came, and there are as many afterwards.
  have htied : (xs.filter (cmp x · == .eq)).Pairwise fun y z => (cmp y z != .gt) = true := by
    refine List.pairwise_of_forall_mem_list fun y hy z hz => ?_
    have hxy : cmp x y = .eq := by simpa using (List.mem_filter.mp hy).2
    have hxz : cmp x z = .eq := by simpa using (List.mem_filter.mp hz).2
    rw [← Std.TransCmp.congr_left hxy, hxz]
    rfl
  have hkept := (List.sublist_mergeSort htrans htotal htied List.filter_sublist).filter (cmp x · == .eq)
  rw [List.filter_filter] at hkept
  simp only [Bool.and_self] at hkept
  exact (hkept.eq_of_length (hperm.filter _).length_eq.symm).symm

theorem mem_filter_tied (y : α) (ys : List α) : y ∈ (y :: ys).filter (cmp y · == .eq) :=
  List.mem_filter.mpr ⟨List.mem_cons_self, beq_iff_eq.mpr Std.ReflCmp.compare_self⟩

/-- What is in an ordered list does not come before the first element. -/
theorem head_le_of_mem {y z : α} (h : (y :: ys).Pairwise fun y z => cmp y z ≠ .gt) (hz : z ∈ y :: ys) :
    cmp y z ≠ .gt := by
  rcases List.mem_cons.mp hz with rfl | hz
  · have hself : cmp z z = .eq := Std.ReflCmp.compare_self
    simp [hself]
  · exact (List.pairwise_cons.mp h).1 z hz

/-- Ordered lists are the same if, for every element, they have the same elements that tie with it in the same order. -/
theorem eq_of_ties : ∀ {ys zs : List α}, (ys.Pairwise fun y z => cmp y z ≠ .gt) →
    (zs.Pairwise fun y z => cmp y z ≠ .gt) → (∀ x, ys.filter (cmp x · == .eq) = zs.filter (cmp x · == .eq)) → ys = zs
  | [], [], _, _, _ => rfl
  | [], z :: zs, _, _, h => absurd (h z ▸ mem_filter_tied z zs) List.not_mem_nil
  | y :: ys, [], _, _, h => absurd (h y ▸ mem_filter_tied y ys) List.not_mem_nil
  | y :: ys, z :: zs, hys, hzs, h => by
    -- Each head is in the other list, so neither comes before the other one: they tie, and are the first that do.
    have hy : y ∈ z :: zs := List.mem_of_mem_filter (h y ▸ mem_filter_tied y ys)
    have hz : z ∈ y :: ys := List.mem_of_mem_filter ((h z).symm ▸ mem_filter_tied z zs)
    have hyz : cmp y z ≠ .gt := head_le_of_mem hys hz
    have hzy : cmp z y ≠ .gt := head_le_of_mem hzs hy
    have htie : cmp y z = .eq := by
      have hswap : cmp z y = (cmp y z).swap := Std.OrientedCmp.eq_swap
      rw [hswap] at hzy
      cases hcmp : cmp y z <;> simp_all
    have hself : cmp y y = .eq := Std.ReflCmp.compare_self
    have hheads := h y
    rw [List.filter_cons_of_pos (by simp [hself]), List.filter_cons_of_pos (by simp [htie])] at hheads
    obtain ⟨rfl, -⟩ := List.cons.inj hheads
    have hrest : ∀ x, ys.filter (cmp x · == .eq) = zs.filter (cmp x · == .eq) := fun x => by
      have hx := h x
      rw [List.filter_cons, List.filter_cons] at hx
      split at hx
      · exact List.tail_eq_of_cons_eq hx
      · exact hx
    rw [eq_of_ties hys.of_cons hzs.of_cons hrest]

theorem StablySorted.unique (hys : StablySorted cmp xs ys) (hzs : StablySorted cmp xs zs) : ys = zs :=
  eq_of_ties hys.ordered hzs.ordered fun x => (hys.ties x).trans (hzs.ties x).symm

omit [Std.TransCmp cmp] in
/-- What passes a test is sorted with everything else. -/
theorem StablySorted.filter (h : StablySorted cmp xs ys) (test : α → Bool) :
    StablySorted cmp (xs.filter test) (ys.filter test) where
  perm := h.perm.filter test
  ordered := h.ordered.filter test
  ties x := by rw [List.filter_comm, h.ties x, List.filter_comm]

end StablySorted

/-! ### One key -/

namespace SortKey

variable {k : SortKey} {a b : Value}

/-- What a document has at the path of the key, or missing. -/
def read (k : SortKey) (d : Value) : Value := (k.path.get? d).getD .missing

/-- The value of the first document comes before that of the second one in the direction of the key. -/
def Precedes (k : SortKey) (a b : Value) : Prop :=
  if k.descending then (k.read b).compare (k.read a) = .lt else (k.read a).compare (k.read b) = .lt

/-- Descending keys compare the other way round. -/
theorem compare_eq (k : SortKey) (a b : Value) :
    k.compare a b = if k.descending then (k.read b).compare (k.read a) else (k.read a).compare (k.read b) := by
  rw [Value.compare_swap (k.read a)]
  rfl

theorem compare_eq_lt : k.compare a b = .lt ↔ k.Precedes a b := by
  rw [compare_eq, Precedes]
  split <;> rfl

theorem compare_eq_eq : k.compare a b = .eq ↔ (k.read a).equal (k.read b) := by
  rw [compare_eq, Value.equal_iff]
  split
  · exact Std.OrientedCmp.eq_comm
  · rfl

instance : Std.TransCmp k.compare where
  eq_swap {a b} := by
    rw [compare_eq, compare_eq]
    split <;> exact Std.OrientedCmp.eq_swap
  isLE_trans {a b c} := by
    rw [compare_eq, compare_eq, compare_eq]
    split
    · exact fun hab hbc => Std.TransCmp.isLE_trans hbc hab
    · exact Std.TransCmp.isLE_trans

end SortKey

/-! ### All keys -/

variable {keys : List SortKey} {a b : Value}

theorem transCmp_compareBy : ∀ keys, Std.TransCmp (compareBy keys)
  | [] => { eq_swap := rfl, isLE_trans := fun _ _ => rfl }
  | k :: rest =>
    have := transCmp_compareBy rest
    inferInstanceAs (Std.TransCmp (compareLex k.compare (compareBy rest)))

instance : Std.TransCmp (compareBy keys) := transCmp_compareBy keys

/-- Some key finds that the first document precedes, and all keys before it find the documents equal. -/
def PrecedesBy (keys : List SortKey) (a b : Value) : Prop :=
  ∃ earlier k later, keys = earlier ++ k :: later ∧ (∀ e ∈ earlier, (e.read a).equal (e.read b)) ∧ k.Precedes a b

theorem compareBy_eq_lt : ∀ {keys : List SortKey}, compareBy keys a b = .lt ↔ PrecedesBy keys a b
  | [] => by
    refine iff_of_false (fun h => nomatch h) ?_
    rintro ⟨earlier, k, later, h, -⟩
    exact List.append_ne_nil_of_right_ne_nil earlier (List.cons_ne_nil k later) h.symm
  | k :: rest => by
    rw [compareBy, Ordering.then_eq_lt, SortKey.compare_eq_lt, SortKey.compare_eq_eq, compareBy_eq_lt]
    constructor
    · rintro (h | ⟨hk, earlier, k', later, rfl, hearlier, h⟩)
      · exact ⟨[], k, rest, rfl, List.forall_mem_nil _, h⟩
      · exact ⟨k :: earlier, k', later, rfl, List.forall_mem_cons.mpr ⟨hk, hearlier⟩, h⟩
    · rintro ⟨_ | ⟨k', earlier⟩, k'', later, hkeys, hearlier, h⟩
      · obtain ⟨rfl, -⟩ := List.cons.inj hkeys
        exact .inl h
      · obtain ⟨rfl, rfl⟩ := List.cons.inj hkeys
        obtain ⟨hk, hearlier⟩ := List.forall_mem_cons.mp hearlier
        exact .inr ⟨hk, earlier, k'', later, rfl, hearlier, h⟩

theorem compareBy_eq_eq : ∀ {keys : List SortKey}, compareBy keys a b = .eq ↔ ∀ k ∈ keys, (k.read a).equal (k.read b)
  | [] => iff_of_true rfl (List.forall_mem_nil _)
  | k :: rest => by
    rw [compareBy, Ordering.then_eq_eq, SortKey.compare_eq_eq, compareBy_eq_eq, List.forall_mem_cons]

/-- It makes no difference whether documents are sorted before or after they are tested. -/
theorem filter_sortBy (keys : List SortKey) (test : Value → Bool) (docs : List Value) :
    (sortBy keys docs).filter test = sortBy keys (docs.filter test) := by
  have hsorted : StablySorted (compareBy keys) docs (sortBy keys docs) := stablySorted_mergeSort docs
  have hkept : StablySorted (compareBy keys) (docs.filter test) (sortBy keys (docs.filter test)) :=
    stablySorted_mergeSort _
  exact (hsorted.filter test).unique hkept

/-- The keys compare documents by a total preorder, in which the first key that tells two documents apart decides, in
    its own direction. Sorting by them never fails and leaves the one list that is a stable sort of the documents. -/
theorem Stage.run_sort (keys : List SortKey) :
    ((∀ a, compareBy keys a a = .eq) ∧ (∀ a b, compareBy keys b a = (compareBy keys a b).swap) ∧
      ∀ a b c, compareBy keys a b ≠ .gt → compareBy keys b c ≠ .gt → compareBy keys a c ≠ .gt) ∧
    (∀ a b, (compareBy keys a b = .lt ↔ PrecedesBy keys a b) ∧
      (compareBy keys a b = .eq ↔ ∀ k ∈ keys, (k.read a).equal (k.read b))) ∧
    ∀ setting name docs, ∃ out, (Stage.sort keys).run setting name docs = .ok out ∧
      StablySorted (compareBy keys) docs out ∧ ∀ other, StablySorted (compareBy keys) docs other → other = out := by
  refine ⟨⟨fun _ => Std.ReflCmp.compare_self, fun _ _ => Std.OrientedCmp.eq_swap, fun _ _ _ => Std.TransCmp.le_trans⟩,
    fun _ _ => ⟨compareBy_eq_lt, compareBy_eq_eq⟩, fun setting name docs => ?_⟩
  have hsorted : StablySorted (compareBy keys) docs (sortBy keys docs) := stablySorted_mergeSort docs
  exact ⟨_, rfl, hsorted, fun other hother => hother.unique hsorted⟩

end DocQuery
