import DocQuery.Proofs.Path
import DocQuery.Proofs.Path.Beside

/-! Reading back what was written. Of two writes to one path the last one counts. Navigation finds the written value
    unless it steps through an array, and a filter sees nothing else, but for gaps: an item of an array that leads on to
    an empty array shows as missing. -/

namespace DocQuery

open Value

namespace Path

variable {segment : String} {rest path : Path} {v w x y c : Value} {items : List Value} {doc : Document}

/-! ### Writing twice -/

theorem put_put (h : ∀ doc, path.set w (path.set v doc) = path.set w doc) (x : Value) :
    path.put w (path.put v x) = path.put w x := by
  have hgraft : ∀ x, path.graft w (path.graft v x) = path.graft w x := fun x => congrArg object (h (fieldsOf x))
  cases path with
  | nil => rfl
  | cons segment rest =>
    cases x with
    | array items =>
      refine congrArg array ?_
      rw [List.map_map]
      exact List.map_congr_left fun item _ => hgraft item
    | _ => exact hgraft _

theorem set_set (path : Path) (v w : Value) (doc : Document) : path.set w (path.set v doc) = path.set w doc := by
  induction path generalizing doc with
  | nil => rfl
  | cons segment rest ih =>
    rw [set_cons, set_cons, set_cons, Fields.insert_insert, Fields.get?_insert, if_pos rfl, Option.getD_some,
      put_put ih]

/-! ### Steps of a walk -/

theorem exists_before_of_mem_stations {s : Value} (h : s ∈ path.stations x) :
    ∃ r, Before r path ∧ r.get? x = some s := by
  induction path generalizing x with
  | nil => exact nomatch h
  | cons segment rest ih =>
    rcases List.mem_cons.mp h with rfl | h
    · exact ⟨[], nil_before_cons, rfl⟩
    · cases hstep : step? x segment with
      | none =>
        rw [hstep] at h
        exact nomatch h
      | some child =>
        rw [hstep] at h
        obtain ⟨r, hr, hget⟩ := ih h
        refine ⟨segment :: r, cons_before_cons.mpr ⟨rfl, hr⟩, ?_⟩
        rw [get?, hstep]
        exact hget

/-! ### Empty arrays -/

/-- On its way to the end of the path a writer comes to an empty array. -/
def MeetsEmpty (path : Path) (x : Value) : Prop := ∃ r, Before r path ∧ .array [] ∈ r.reached x

/-- On its way to the end of the path a writer comes to an empty array behind another array. -/
def MeetsEmptyBehind (path : Path) (x : Value) : Prop :=
  ∃ r, Before r path ∧ .array [] ∈ r.reached x ∧ ∃ first, Before first r ∧ ∃ items, .array items ∈ first.reached x

theorem not_meetsEmpty_nil : ¬MeetsEmpty [] x := fun ⟨_, hr, _⟩ => not_before_nil hr

theorem not_meetsEmptyBehind_nil : ¬MeetsEmptyBehind [] x := fun ⟨_, hr, _⟩ => not_before_nil hr

theorem array_mem_reached_nil (hx : x.isArray = false) : .array items ∉ reached [] x := fun h => by
  rw [← List.mem_singleton.mp h] at hx
  exact Bool.noConfusion hx

theorem meetsEmpty_cons_of_not_array (hx : x.isArray = false) :
    MeetsEmpty (segment :: rest) x ↔ MeetsEmpty rest (fieldOf segment x) := by
  unfold MeetsEmpty
  rw [exists_before_cons, or_iff_right (array_mem_reached_nil hx)]
  simp only [mem_reached_cons_of_not_array hx]

theorem exists_before_mem_reached_array : (∃ r, Before r rest ∧ y ∈ reached (segment :: r) (.array items)) ↔
    ∃ item ∈ items, ∃ r, Before r rest ∧ y ∈ r.reached (fieldOf segment item) := by
  simp only [mem_reached_cons, under, List.mem_map, exists_exists_and_eq_and]
  constructor
  · rintro ⟨r, hr, item, hitem, h⟩
    exact ⟨item, hitem, r, hr, h⟩
  · rintro ⟨item, hitem, r, hr, h⟩
    exact ⟨r, hr, item, hitem, h⟩

theorem meetsEmpty_cons_array : MeetsEmpty (segment :: rest) (.array items) ↔
    items = [] ∨ ∃ item ∈ items, MeetsEmpty rest (fieldOf segment item) := by
  unfold MeetsEmpty
  rw [exists_before_cons, exists_before_mem_reached_array, reached, List.mem_singleton, array.injEq, eq_comm]

theorem meetsEmptyBehind_cons_of_not_array (hx : x.isArray = false) :
    MeetsEmptyBehind (segment :: rest) x ↔ MeetsEmptyBehind rest (fieldOf segment x) := by
  have hnil : ∀ items, .array items ∉ reached [] x := fun _ => array_mem_reached_nil hx
  unfold MeetsEmptyBehind
  simp only [exists_before_cons, mem_reached_cons_of_not_array hx, hnil, false_and, exists_false, false_or]

theorem meetsEmptyBehind_cons_array :
    MeetsEmptyBehind (segment :: rest) (.array items) ↔ ∃ item ∈ items, MeetsEmpty rest (fieldOf segment item) := by
  have hfirst : ∃ more, .array more ∈ reached [] (.array items) := ⟨items, List.mem_singleton_self _⟩
  unfold MeetsEmptyBehind MeetsEmpty
  simp only [exists_before_cons, not_before_nil, false_and, exists_false, and_false, false_or, hfirst, true_or, and_true,
    exists_before_mem_reached_array]

/-! ### What a filter sees -/

theorem candidates_graft : candidates (segment :: rest) (graft (segment :: rest) v x) =
    rest.candidates (rest.put v (fieldOf segment x)) := by
  rw [graft, set_cons, candidates, Fields.get?_insert, if_pos rfl]
  rfl

theorem candidates_put_of_not_array (hx : x.isArray = false) :
    candidates (segment :: rest) (put (segment :: rest) v x) = rest.candidates (rest.put v (fieldOf segment x)) := by
  rw [put_cons hx, candidates_graft]

theorem candidates_put_array (hsegment : index? segment = none) (items : List Value) :
    candidates (segment :: rest) (put (segment :: rest) v (.array items)) =
      items.flatMap fun item => orGap (rest.candidates (rest.put v (fieldOf segment item))) := by
  rw [put, candidates_items hsegment, List.flatMap_map]
  refine List.flatMap_congr fun item _ => ?_
  have hobject : (graft (segment :: rest) v item).isObject := rfl
  rw [if_pos hobject, candidates_graft]

/-- Each candidate is the written value or a gap. -/
theorem eq_or_eq_of_mem_candidates_put (hindex : ∀ segment ∈ path, index? segment = none)
    (hc : c ∈ path.candidates (path.put v x)) : c = v ∨ c = .missing := by
  induction path generalizing x with
  | nil => exact .inl (List.mem_singleton.mp hc)
  | cons segment rest ih =>
    obtain ⟨hsegment, hrest⟩ := List.forall_mem_cons.mp hindex
    cases hx : x.isArray with
    | false =>
      rw [candidates_put_of_not_array hx] at hc
      exact ih hrest hc
    | true =>
      obtain ⟨items, rfl⟩ := exists_array hx
      rw [candidates_put_array hsegment] at hc
      obtain ⟨item, -, hc⟩ := List.mem_flatMap.mp hc
      rcases mem_orGap.mp hc with hc | ⟨-, hc⟩
      · exact ih hrest hc
      · exact .inr hc

theorem missing_mem_orGap {found : List Value} : .missing ∈ orGap found ↔ found = [] ∨ .missing ∈ found := by
  rw [mem_orGap, and_iff_left rfl, or_comm]

theorem flatMap_orGap_eq_nil {f : Value → List Value} :
    (items.flatMap fun item => orGap (f item)) = [] ↔ items = [] := by
  rw [List.flatMap_eq_nil_iff]
  constructor
  · exact fun h => List.eq_nil_iff_forall_not_mem.mpr fun item hitem => orGap_ne_nil _ (h item hitem)
  · rintro rfl
    exact List.forall_mem_nil _

/-- A write leaves no candidate, or a gap among them, iff it meets an empty array. -/
theorem meetsEmpty_iff (hv : v ≠ .missing) (hindex : ∀ segment ∈ path, index? segment = none) (x : Value) :
    path.MeetsEmpty x ↔ path.candidates (path.put v x) = [] ∨ .missing ∈ path.candidates (path.put v x) := by
  induction path generalizing x with
  | nil => exact iff_of_false not_meetsEmpty_nil (by simp [candidates, put, hv.symm])
  | cons segment rest ih =>
    obtain ⟨hsegment, hrest⟩ := List.forall_mem_cons.mp hindex
    cases hx : x.isArray with
    | false => rw [meetsEmpty_cons_of_not_array hx, candidates_put_of_not_array hx, ih hrest]
    | true =>
      -- Each item of an array has candidates or shows as a gap, so only an array without items leaves none.
      obtain ⟨items, rfl⟩ := exists_array hx
      simp only [meetsEmpty_cons_array, candidates_put_array hsegment, flatMap_orGap_eq_nil, List.mem_flatMap,
        missing_mem_orGap, ih hrest]

/-- A write leaves a gap among the candidates iff it meets an empty array behind another array. -/
theorem meetsEmptyBehind_iff (hv : v ≠ .missing) (hindex : ∀ segment ∈ path, index? segment = none) (x : Value) :
    path.MeetsEmptyBehind x ↔ .missing ∈ path.candidates (path.put v x) := by
  induction path generalizing x with
  | nil => exact iff_of_false not_meetsEmptyBehind_nil (by simp [candidates, put, hv.symm])
  | cons segment rest ih =>
    obtain ⟨hsegment, hrest⟩ := List.forall_mem_cons.mp hindex
    cases hx : x.isArray with
    | false => rw [meetsEmptyBehind_cons_of_not_array hx, candidates_put_of_not_array hx, ih hrest]
    | true =>
      obtain ⟨items, rfl⟩ := exists_array hx
      simp only [meetsEmptyBehind_cons_array, candidates_put_array hsegment, List.mem_flatMap, missing_mem_orGap,
        meetsEmpty_iff hv hrest]

/-! ### Documents -/

/-- The last of two writes counts. Navigation finds what was written if it comes to no array on its way to the end of
    the path. If no segment is a position, a filter sees what was written, and a gap iff the write meets an empty array
    behind another array; it sees nothing at all only if the write meets an empty array. -/
theorem set_reads_back (hpath : path ≠ []) (hv : v ≠ .missing) (w : Value) (doc : Document) :
    path.set w (path.set v doc) = path.set w doc ∧
      ((∀ r, Before r path → ∀ x, r.get? (.object doc) = some x → x.isArray = false) →
        path.get? (.object (path.set v doc)) = some v) ∧
      ((∀ segment ∈ path, index? segment = none) →
        (∀ c ∈ path.candidates (.object (path.set v doc)), c = v ∨ c = .missing) ∧
          (.missing ∈ path.candidates (.object (path.set v doc)) ↔ path.MeetsEmptyBehind (.object doc)) ∧
            (path.candidates (.object (path.set v doc)) = [] → path.MeetsEmpty (.object doc))) := by
  rw [object_set hpath]
  refine ⟨set_set path v w doc, fun hwalk => get?_put fun s hs => ?_, fun hindex => ⟨fun c => ?_, ?_, fun h => ?_⟩⟩
  · obtain ⟨r, hr, hget⟩ := exists_before_of_mem_stations hs
    exact hwalk r hr s hget
  · exact eq_or_eq_of_mem_candidates_put hindex
  · exact (meetsEmptyBehind_iff hv hindex _).symm
  · exact (meetsEmpty_iff hv hindex _).mpr (.inl h)

/-- An order without lines is paid, and then it is not. -/
theorem set_reads_back_paid :
    let doc : Document := [("order", .object [("lines", .array [])])]
    let paid := ofString "order.paid"
    let once := paid.set (.bool true) doc
    (paid ≠ [] ∧ Value.bool true ≠ .missing ∧
      (∀ r, Before r paid → ∀ x, r.get? (.object doc) = some x → x.isArray = false) ∧
        ∀ segment ∈ paid, index? segment = none) ∧
      paid.set (.bool false) once = paid.set (.bool false) doc ∧ paid.get? (.object once) = some (.bool true) ∧
        ∀ c ∈ paid.candidates (.object once), c = .bool true ∨ c = .missing := by
  intro doc paid once
  have hpath : paid ≠ [] := ofString_ne_nil _
  have hthere : Value.bool true ≠ .missing := by simp
  have hwalk : ∀ r, Before r paid → ∀ x, r.get? (.object doc) = some x → x.isArray = false := by
    show ∀ r, Before r ["order", "paid"] → _
    simp [forall_before_cons, not_before_nil, get?, step?, doc, Fields.get?, isArray]
  have hindex : ∀ segment ∈ paid, index? segment = none := by decide
  obtain ⟨hlast, hget, hcandidates⟩ := set_reads_back hpath hthere (.bool false) doc
  exact ⟨⟨hpath, hthere, hwalk, hindex⟩, hlast, hget hwalk, (hcandidates hindex).1⟩

/-- The first item of an array leads to an empty array. -/
theorem not_set_reads_back_gap :
    let doc : Document := [("a", .array [.object [("b", .array [])], .object []])]
    let path := ofString "a.b.c"
    (Value.object doc).Distinct ∧ (∀ segment ∈ path, index? segment = none) ∧
      path.candidates (.object (path.set (.int 1) doc)) = [.missing, .int 1] ∧
        ¬∀ c ∈ path.candidates (.object (path.set (.int 1) doc)), c = .int 1 := by
  intro doc path
  have hdoc : (Value.object doc).Distinct :=
    (wellFormed_ofJson (.object [("a", .array [.object [("b", .array [])], .object []])])).distinct
  have hcandidates : path.candidates (.object (path.set (.int 1) doc)) = [.missing, .int 1] := rfl
  refine ⟨hdoc, by decide, hcandidates, fun h => ?_⟩
  rw [hcandidates] at h
  exact nomatch h .missing List.mem_cons_self

end Path

end DocQuery
