import DocQuery.Proofs.Find
import DocQuery.Proofs.Value.Count

/-! Pages of a search. To skip and to limit is to cut a window out of what the search finds without them, because the
    projection changes the documents one by one. This needs numbers that fit in 64 bits with a sign, as the stages take
    no others. -/

namespace DocQuery

open Checked Pipeline

variable {filter : Value} {o : FindOptions} {search : Option TextSearch} {docs found out all : List Value}
  {setting : Setting}

namespace FindOptions

/-- What is left of a list behind the elements that are skipped, up to a number if one is given. -/
def window {α : Type} (skip limit : Option Nat) (xs : List α) : List α := atMost limit (xs.drop (skip.getD 0))

/-- The number can be given to a stage, if there is one. -/
def IsCount (bound : Option Nat) : Prop := ∀ n ∈ bound, (n : Int) ≤ Int64.maxValue.toInt

/-! ### Windows -/

section Windows

variable {α : Type} {xs : List α}

/-- Windows of one size, side by side. -/
theorem flatMap_window (size count : Nat) (xs : List α) :
    (List.range count).flatMap (fun i => window (some (i * size)) (some size) xs) = xs.take (count * size) := by
  induction count with
  | zero => simp
  | succ count ih =>
    rw [List.range_succ, List.flatMap_append, ih, List.flatMap_singleton, Nat.succ_mul, List.take_add]
    rfl

theorem forall₂_window {β : Type} {R : α → β → Prop} {ys : List β} (skip limit : Option Nat)
    (h : List.Forall₂ R xs ys) : List.Forall₂ R (window skip limit xs) (window skip limit ys) := by
  have hdrop := List.forall₂_drop (skip.getD 0) h
  cases limit with
  | none => exact hdrop
  | some n => exact List.forall₂_take n hdrop

end Windows

/-! ### The stages of a window -/

theorem isCount_none : IsCount none := fun _ h => nomatch h

theorem isCount_some {n : Nat} : IsCount (some n) ↔ (n : Int) ≤ Int64.maxValue.toInt := by simp [IsCount]

/-- A stage that is given a number of documents, which is not less than what it asks for. -/
theorem aggregate_count {name : String} {least : Int} {n : Nat} {make : Nat → Stage} {leave : Nat → List Value}
    (hbound : setting.limits.maxDocuments = none)
    (hread : Stage.ofSpecification name (.ofCount n) = (Stage.countOf name least (.ofCount n)).map make)
    (hrun : ∀ n, (make n).run setting name docs = .ok (leave n)) (hleast : least ≤ n) :
    aggregate (.array [.object [(name, .ofCount n)]]) setting docs = .ok out ↔ IsCount (some n) ∧ leave n = out := by
  rw [aggregate_certain hbound hread hrun, isCount_some]
  simp only [Stage.countOf_ofCount]
  constructor
  · rintro ⟨_, ⟨-, hmax, rfl⟩, hout⟩
    exact ⟨hmax, hout⟩
  · rintro ⟨hmax, hout⟩
    exact ⟨n, ⟨hleast, hmax, rfl⟩, hout⟩

theorem aggregate_skipping (hbound : setting.limits.maxDocuments = none) :
    aggregate (.array o.skipping) setting docs = .ok out ↔ IsCount o.skip ∧ docs.drop (o.skip.getD 0) = out := by
  rcases hskip : o.skip with _ | _ | n
  · have hnone : o.skipping = [] := by rw [skipping, hskip]; rfl
    rw [hnone, aggregate_nil hbound]
    exact (and_iff_right isCount_none).symm
  · have hnone : o.skipping = [] := by rw [skipping, hskip]; rfl
    rw [hnone, aggregate_nil hbound]
    exact (and_iff_right (isCount_some.mpr (by decide))).symm
  · have hone : o.skipping = [.object [("$skip", .ofCount (n + 1))]] := by rw [skipping, hskip]; rfl
    have hread (v : Value) : Stage.ofSpecification "$skip" v = (Stage.countOf "$skip" 0 v).map .skip := rfl
    have hrun (n : Nat) : (Stage.skip n).run setting "$skip" docs = .ok (docs.drop n) := rfl
    rw [hone]
    exact aggregate_count hbound (hread _) hrun (Int.natCast_nonneg _)

theorem aggregate_limiting (hbound : setting.limits.maxDocuments = none) (hlimit : o.limit ≠ some 0) :
    aggregate (.array o.limiting) setting docs = .ok out ↔ IsCount o.limit ∧ atMost o.limit docs = out := by
  rcases hn : o.limit with _ | _ | n
  · have hnone : o.limiting = [] := by rw [limiting, hn]; rfl
    rw [hnone, aggregate_nil hbound]
    exact (and_iff_right isCount_none).symm
  · exact absurd hn hlimit
  · have hone : o.limiting = [.object [("$limit", .ofCount (n + 1))]] := by rw [limiting, hn]; rfl
    have hread (v : Value) : Stage.ofSpecification "$limit" v = (Stage.countOf "$limit" 1 v).map .limit := rfl
    have hrun (n : Nat) : (Stage.limit n).run setting "$limit" docs = .ok (docs.take n) := rfl
    rw [hone]
    exact aggregate_count hbound (hread _) hrun (by omega)

/-- The projection of a window is the window of the projection. -/
theorem aggregate_projecting_window (hbound : setting.limits.maxDocuments = none)
    (h : aggregate (.array o.projecting) setting docs = .ok out) (skip limit : Option Nat) :
    aggregate (.array o.projecting) setting (window skip limit docs) = .ok (window skip limit out) := by
  unfold projecting at *
  rcases stage_cases o.projection (!isEmptyObject ·) fun v => .object [("$project", v)] with hnone | ⟨v, -, hone⟩
  · rw [hnone, aggregate_nil hbound] at h
    rw [hnone, aggregate_nil hbound, h]
  · have hread : Stage.ofSpecification "$project" v = (Projection.ofValue v).map .project := rfl
    rw [hone, aggregate_single hbound hread] at h
    rw [hone, aggregate_single hbound hread]
    obtain ⟨projection, hprojection, hrun⟩ := h
    exact ⟨projection, hprojection, mapM_eq_ok.mpr (forall₂_window skip limit (mapM_eq_ok.mp hrun))⟩

/-- The stages of the options sort, cut a window out of what is sorted, and project. -/
theorem aggregate_stages (hbound : setting.limits.maxDocuments = none) (hlimit : o.limit ≠ some 0) :
    aggregate (.array o.stages) setting docs = .ok out ↔
      ∃ sorted, aggregate (.array o.sorting) setting docs = .ok sorted ∧ (IsCount o.skip ∧ IsCount o.limit) ∧
        aggregate (.array o.projecting) setting (window o.skip o.limit sorted) = .ok out := by
  simp only [stages_eq, aggregate_append_eq_ok hbound, aggregate_skipping hbound, aggregate_limiting hbound hlimit]
  constructor
  · rintro ⟨_, ⟨_, ⟨sorted, hsorted, hskip, rfl⟩, hlimit, rfl⟩, hout⟩
    exact ⟨sorted, hsorted, ⟨hskip, hlimit⟩, hout⟩
  · rintro ⟨sorted, hsorted, ⟨hskip, hlimit⟩, hout⟩
    exact ⟨_, ⟨_, ⟨sorted, hsorted, hskip, rfl⟩, hlimit, rfl⟩, hout⟩

end FindOptions

open FindOptions

/-! ### Searching -/

/-- The same search for a page of what it finds. -/
abbrev FindOptions.page (o : FindOptions) (skip limit : Option Nat) : FindOptions := { o with skip, limit }

/-- The numbers of a page can be given to stages, unless nothing is wanted and no stage is asked. -/
def FindOptions.CanTurnTo (skip limit : Option Nat) : Prop := limit = some 0 ∨ (IsCount skip ∧ IsCount limit)

theorem find_page (hall : find filter (o.page none none) search docs = .ok all) {skip limit : Option Nat}
    (hcounts : CanTurnTo skip limit) : find filter (o.page skip limit) search docs = .ok (window skip limit all) := by
  obtain ⟨query, hquery, h⟩ := find_eq_ok.mp hall
  rw [if_neg (by simp)] at h
  obtain ⟨found, hfound, hstages⟩ := h
  obtain ⟨sorted, hsorted, -, hproject⟩ := (aggregate_stages rfl (by simp)).mp hstages
  refine find_eq_ok.mpr ⟨query, hquery, ?_⟩
  -- With the limit zero nothing is searched, whatever the number to skip is.
  split
  · next hzero =>
    obtain rfl : limit = some 0 := hzero
    rfl
  · next hlimit =>
    exact ⟨found, hfound, (aggregate_stages rfl hlimit).mpr
      ⟨sorted, hsorted, hcounts.resolve_left hlimit, aggregate_projecting_window rfl hproject skip limit⟩⟩

theorem canTurnTo_of_find {skip limit : Option Nat} (h : find filter (o.page skip limit) search docs = .ok out) :
    CanTurnTo skip limit := by
  obtain ⟨query, hquery, h⟩ := find_eq_ok.mp h
  split at h
  · next hzero => exact .inl hzero
  · next hlimit =>
    obtain ⟨found, -, hstages⟩ := h
    obtain ⟨sorted, -, hcounts, -⟩ := (aggregate_stages rfl hlimit).mp hstages
    exact .inr hcounts

/-- A page of a search is the window that the numbers cut out of all that the search finds, whatever it sorts by and
    projects to. It is found exactly if the numbers fit in 64 bits with a sign, or nothing is wanted. Pages of one size,
    one after the other, lose and repeat nothing. -/
theorem find_page_eq_window (hall : find filter (o.page none none) search docs = .ok all) :
    (∀ skip limit, CanTurnTo skip limit →
      find filter (o.page skip limit) search docs = .ok (window skip limit all)) ∧
    (∀ skip limit, ¬CanTurnTo skip limit → ∃ failure, find filter (o.page skip limit) search docs = .error failure) ∧
    ∀ size count : Nat, IsCount (some size) → IsCount (some ((count - 1) * size)) → ∃ pages : List (List Value),
      (List.range count).mapM (fun i => find filter (o.page (some (i * size)) (some size)) search docs) = .ok pages ∧
        pages.flatten = all.take (count * size) := by
  refine ⟨fun _ _ => find_page hall, fun skip limit hcounts => ?_, fun size count hsize hlast => ?_⟩
  · cases h : find filter (o.page skip limit) search docs with
    | ok out => exact absurd (canTurnTo_of_find h) hcounts
    | error failure => exact ⟨failure, rfl⟩
  · refine ⟨_, mapM_ok fun i hi => find_page hall (.inr ⟨?_, hsize⟩), ?_⟩
    · have hle : i * size ≤ (count - 1) * size := Nat.mul_le_mul_right _ (Nat.le_sub_one_of_lt (List.mem_range.mp hi))
      exact isCount_some.mpr (Int.le_trans (Int.ofNat_le.mpr hle) (isCount_some.mp hlast))
    · rw [← List.flatMap_def, flatMap_window]

/-- Pages of two out of three documents. -/
theorem find_page_eq_window_cups :
    let o : FindOptions := { projection := some (.object [("name", .int 1)]) }
    let docs := [Value.object [("name", .string "cup")], .object [("size", .int 3)], .object [("name", .string "pot")]]
    let all := [Value.object [("name", .string "cup")], .object [], .object [("name", .string "pot")]]
    find (.object []) (o.page none none) none docs = .ok all ∧ CanTurnTo (some 1) (some 5) ∧
      find (.object []) (o.page (some 1) (some 5)) none docs = .ok [.object [], .object [("name", .string "pot")]] ∧
        ∃ pages : List (List Value), (List.range 2).mapM
          (fun i => find (.object []) (o.page (some (i * 2)) (some 2)) none docs) = .ok pages ∧ pages.flatten = all := by
  intro o docs all
  have hall : find (.object []) (o.page none none) none docs = .ok all := rfl
  have hcounts : CanTurnTo (some 1) (some 5) := .inr ⟨isCount_some.mpr (by decide), isCount_some.mpr (by decide)⟩
  obtain ⟨hpage, -, hpages⟩ := find_page_eq_window hall
  exact ⟨hall, hcounts, hpage _ _ hcounts, hpages 2 2 (isCount_some.mpr (by decide)) (isCount_some.mpr (by decide))⟩

/-- A number with 64 bits can be given as an option and not to a stage. -/
theorem not_find_page_eq_window_beyond :
    let docs := [Value.object [("a", .int 1)], .object [("a", .int 2)]]
    find (.object []) (({} : FindOptions).page none none) none docs = .ok docs ∧ 9223372036854775808 < UInt64.size ∧
      find (.object []) (({} : FindOptions).page (some 1) (some 9223372036854775808)) none docs ≠
        .ok (window (some 1) (some 9223372036854775808) docs) := by
  intro docs
  refine ⟨rfl, by decide, fun h => ?_⟩
  rcases canTurnTo_of_find h with hzero | ⟨-, hlimit⟩
  · exact absurd hzero (by decide)
  · exact absurd (isCount_some.mp hlimit) (by decide)

end DocQuery
