import DocQuery.Find
import DocQuery.Proofs.Pipeline.Single

/-! Searches as pipelines. A search tests the documents it scans by itself and gives those it finds to the stages that
    its options stand for. This comes to the same as one pipeline that begins with the filter, on the documents that
    the search does not pass over. -/

namespace DocQuery

open Checked Pipeline

variable {filter : Value} {o : FindOptions} {search : Option TextSearch} {docs found out : List Value} {query : Query}

namespace FindOptions

/-- The first elements, up to a number if one is given. -/
def atMost {α : Type} (bound : Option Nat) (xs : List α) : List α :=
  match bound with
  | some n => xs.take n
  | none => xs

/-- The documents that are looked at. -/
def scanned (o : FindOptions) (docs : List Value) : List Value := atMost o.maxScanned docs

/-- The documents that are looked at, without those that are passed over because they cannot be tested. -/
def considered (o : FindOptions) (filter : Value) (search : Option TextSearch) (docs : List Value) : List Value :=
  match o.policy with
  | .abort => o.scanned docs
  | .skipDocument => (o.scanned docs).filter fun d => (Query.testValue filter search d).isOk

/-! ### The stages of the options -/

def sorting (o : FindOptions) : List Value := (o.sort.toList.filter (!·.isEmpty)).map sortStage

def skipping (o : FindOptions) : List Value :=
  (o.skip.toList.filter (0 < ·)).map fun n => .object [("$skip", .ofCount n)]

def limiting (o : FindOptions) : List Value :=
  (o.limit.toList.filter fun _ => true).map fun n => .object [("$limit", .ofCount n)]

def projecting (o : FindOptions) : List Value :=
  (o.projection.toList.filter (!isEmptyObject ·)).map fun v => .object [("$project", v)]

theorem stages_eq (o : FindOptions) : o.stages = o.sorting ++ o.skipping ++ o.limiting ++ o.projecting := by
  rw [limiting, List.filter_true]
  rfl

/-- An option stands for one stage or for none. -/
theorem stage_cases {α : Type} (x : Option α) (given : α → Bool) (stage : α → Value) :
    (x.toList.filter given).map stage = [] ∨ ∃ a ∈ x, (x.toList.filter given).map stage = [stage a] := by
  cases x with
  | none => exact .inl rfl
  | some a =>
    cases h : given a with
    | true => exact .inr ⟨a, rfl, by simp [h]⟩
    | false => exact .inl (by simp [h])

end FindOptions

namespace Pipeline

/-! ### Stages that take no part in the setting -/

/-- The stages leave the same documents in any setting in which the number of documents is not bounded. -/
def Indifferent (stages : List Value) : Prop :=
  ∀ (setting : Setting) (docs out : List Value), setting.limits.maxDocuments = none →
    (aggregate (.array stages) setting docs = .ok out ↔ aggregate (.array stages) {} docs = .ok out)

variable {p q : List Value}

theorem Indifferent.nil : Indifferent [] := fun _ _ _ hbound => (aggregate_nil hbound).trans (aggregate_nil rfl).symm

theorem Indifferent.append (hp : Indifferent p) (hq : Indifferent q) : Indifferent (p ++ q) := by
  intro setting docs out hbound
  have hunbound : ({} : Setting).limits.maxDocuments = none := rfl
  simp only [aggregate_append_eq_ok hbound, aggregate_append_eq_ok hunbound, hp setting _ _ hbound,
    hq setting _ _ hbound]

theorem Indifferent.single {α : Type} {name : String} {v : Value} {read : Checked α} {make : α → Stage}
    (hread : Stage.ofSpecification name v = read.map make)
    (hrun : ∀ a setting docs, (make a).run setting name docs = (make a).run {} name docs) :
    Indifferent [.object [(name, v)]] := by
  intro setting docs out hbound
  have hunbound : ({} : Setting).limits.maxDocuments = none := rfl
  simp only [aggregate_single hbound hread, aggregate_single hunbound hread, hrun _ setting]

theorem Indifferent.optional {α : Type} {stage : α → Value} (h : ∀ a, Indifferent [stage a]) (x : Option α)
    (given : α → Bool) : Indifferent ((x.toList.filter given).map stage) := by
  rcases FindOptions.stage_cases x given stage with hnone | ⟨a, -, hsome⟩
  · exact hnone ▸ .nil
  · exact hsome ▸ h a

theorem indifferent_stages (o : FindOptions) : Indifferent o.stages := by
  have hsort (v : Value) : Stage.ofSpecification "$sort" v = (SortKey.ofValue v).map .sort := rfl
  have hskip (v : Value) : Stage.ofSpecification "$skip" v = (Stage.countOf "$skip" 0 v).map .skip := rfl
  have hlimit (v : Value) : Stage.ofSpecification "$limit" v = (Stage.countOf "$limit" 1 v).map .limit := rfl
  have hproject (v : Value) : Stage.ofSpecification "$project" v = (Projection.ofValue v).map .project := rfl
  have hsorting : Indifferent o.sorting := .optional (fun _ => .single (hsort _) fun _ _ _ => rfl) _ _
  have hskipping : Indifferent o.skipping := .optional (fun _ => .single (hskip _) fun _ _ _ => rfl) _ _
  have hlimiting : Indifferent o.limiting := .optional (fun _ => .single (hlimit _) fun _ _ _ => rfl) _ _
  have hprojecting : Indifferent o.projecting := .optional (fun _ => .single (hproject _) fun _ _ _ => rfl) _ _
  rw [o.stages_eq]
  exact ((hsorting.append hskipping).append hlimiting).append hprojecting

end Pipeline

/-! ### Searching -/

/-- A search that succeeds: the filter is valid, and unless nothing is wanted the documents that are found go through
    the stages of the options. -/
theorem find_eq_ok : find filter o search docs = .ok out ↔
    ∃ query, Query.ofValue filter = .ok query ∧ if o.limit = some 0 then [] = out
      else ∃ found, Stage.keep (o.policy.test query search) (o.scanned docs) = .ok found ∧
        aggregate (.array o.stages) {} found = .ok out := by
  simp only [find, bind_eq_ok, mapError_eq_ok]
  refine exists_congr fun query => and_congr_right fun _ => ?_
  split
  · exact ⟨Except.ok.inj, congrArg _⟩
  · rw [bind_eq_ok]
    constructor
    · rintro ⟨steps, hsteps, h⟩
      obtain ⟨found, hfound, hrun⟩ := bind_eq_ok.mp h
      exact ⟨found, mapError_eq_ok.mp hfound, bind_eq_ok.mpr ⟨steps, hsteps, hrun⟩⟩
    · rintro ⟨found, hfound, h⟩
      obtain ⟨steps, hsteps, hrun⟩ := bind_eq_ok.mp h
      exact ⟨steps, hsteps, bind_eq_ok.mpr ⟨found, mapError_eq_ok.mpr hfound, hrun⟩⟩

theorem ErrorPolicy.test_abort (query : Query) (search : Option TextSearch) (d : Value) :
    ErrorPolicy.abort.test query search d = query.test search d := by
  unfold ErrorPolicy.test
  split
  · next h _ => cases h
  · rfl

theorem ErrorPolicy.holds_test_skipDocument (query : Query) (search : Option TextSearch) (d : Value) :
    (ErrorPolicy.skipDocument.test query search d).holds = (query.test search d).holds := by
  unfold ErrorPolicy.test
  cases query.test search d <;> rfl

theorem ErrorPolicy.exists_test_skipDocument (query : Query) (search : Option TextSearch) (d : Value) :
    ∃ b, ErrorPolicy.skipDocument.test query search d = .ok b := by
  unfold ErrorPolicy.test
  cases query.test search d with
  | ok b => exact ⟨b, rfl⟩
  | error e => exact ⟨false, rfl⟩

/-- To test under the policy is to test what the policy leaves to be tested. -/
theorem keep_considered (hquery : Query.ofValue filter = .ok query) :
    Stage.keep (query.test search) (o.considered filter search docs) = .ok found ↔
      Stage.keep (o.policy.test query search) (o.scanned docs) = .ok found := by
  have htest : ∀ d, Query.testValue filter search d = query.test search d := fun d => by
    rw [Query.testValue, hquery]
    rfl
  unfold FindOptions.considered
  split
  · next hpolicy =>
    rw [hpolicy, funext (ErrorPolicy.test_abort query search)]
  · next hpolicy =>
    -- The documents whose test fails are the ones that are passed over, so the rest can be tested without a fault.
    have hholds : ∀ d, ((query.test search d).holds && (Query.testValue filter search d).isOk) =
        (query.test search d).holds := fun d => by
      rw [htest]
      cases query.test search d <;> simp [holds, Except.isOk, Except.toBool]
    have hok : ∀ d, (Query.testValue filter search d).isOk = true → ∃ b, query.test search d = .ok b := fun d h => by
      rw [htest] at h
      cases hd : query.test search d with
      | ok b => exact ⟨b, rfl⟩
      | error => simp [hd, Except.isOk, Except.toBool] at h
    simp only [hpolicy, Stage.keep_eq_ok, List.filter_filter, hholds, ErrorPolicy.holds_test_skipDocument]
    exact and_congr_left fun _ => iff_of_true (fun d hd => hok d (List.mem_filter.mp hd).2) fun d _ =>
      ErrorPolicy.exists_test_skipDocument query search d

/-- A search is one pipeline: the filter as its first stage, then the stages of the options. It is run on the documents
    that are scanned, without those that are passed over under the policy. The search succeeds iff the filter is valid
    and the pipeline succeeds, with the same documents. -/
theorem find_eq_ok_iff_aggregate (hlimit : o.limit ≠ some 0) (filter : Value) (search : Option TextSearch)
    (docs out : List Value) :
    find filter o search docs = .ok out ↔ (∃ query, Query.ofValue filter = .ok query) ∧
      aggregate (.array (.object [("$match", filter)] :: o.stages)) { search } (o.considered filter search docs) =
        .ok out := by
  have hcons : Value.object [("$match", filter)] :: o.stages = [.object [("$match", filter)]] ++ o.stages := rfl
  have hmatch : ∀ found, aggregate (.array [.object [("$match", filter)]]) { search }
      (o.considered filter search docs) = .ok found ↔ ∃ query, Query.ofValue filter = .ok query ∧
        Stage.keep (query.test search) (o.considered filter search docs) = .ok found := fun found => by
    have hread : Stage.ofSpecification "$match" filter = (Query.ofValue filter).map .filter := rfl
    exact aggregate_single rfl hread
  have hunbound : ({ search } : Setting).limits.maxDocuments = none := rfl
  -- The options are stages of their own, which do not see the search nor the place that they run at.
  simp only [find_eq_ok, if_neg hlimit, hcons, aggregate_append_eq_ok hunbound, hmatch,
    indifferent_stages o _ _ _ hunbound]
  constructor
  · rintro ⟨query, hquery, found, hfound, hrun⟩
    exact ⟨⟨query, hquery⟩, found, ⟨query, hquery, (keep_considered hquery).mpr hfound⟩, hrun⟩
  · rintro ⟨-, found, ⟨query, hquery, hfound⟩, hrun⟩
    exact ⟨query, hquery, found, (keep_considered hquery).mp hfound, hrun⟩

/-- A document without text cannot be searched for words and is passed over, and the last document is not scanned. -/
theorem find_eq_ok_iff_aggregate_unread :
    let filter := Value.object [("$text", .object [("$search", .string "cup")])]
    let o : FindOptions := { limit := some 5, policy := .skipDocument, maxScanned := some 2 }
    let search : TextSearch := fun d _ => match d.get? "body" with
      | some (.string _) => .ok true
      | _ => .error (.textSearchRefused "body is not text")
    let docs := [Value.object [("body", .int 3)], .object [("body", .string "a cup")], .object [("body", .string "")]]
    let out := [Value.object [("body", .string "a cup")]]
    o.limit ≠ some 0 ∧ find filter o (some search) docs = .ok out ∧
      aggregate (.array (.object [("$match", filter)] :: o.stages)) { search := some search }
        (o.considered filter (some search) docs) = .ok out := by
  intro filter o search docs out
  have hlimit : o.limit ≠ some 0 := by decide
  have hfind : find filter o (some search) docs = .ok out := rfl
  exact ⟨hlimit, hfind, ((find_eq_ok_iff_aggregate hlimit filter (some search) docs out).mp hfind).2⟩

end DocQuery
