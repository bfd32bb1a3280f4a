import Mathlib.Algebra.Order.BigOperators.Group.List
import Mathlib.Algebra.Order.Group.Nat
import DocQuery.Proofs.Fields.Names
import DocQuery.Proofs.Path.Copied

/-! Many paths copied into one document, one after the other, whatever they have in common. The field that a path
    begins with gets what the rests of all paths of this beginning make of it. What is left has all that the same copies
    need: made again from what they left, they leave the same, with the fields in the same order. -/

namespace DocQuery

open Value

variable {segment other : String} {rest path : Path} {paths more : List Path} {x there : Value} {items : List Value}
  {source target another : Document}

namespace Value

/-- Is the value made of other values? -/
def hasParts (v : Value) : Bool := v.isArray || v.isObject

end Value

namespace Path

/-- Copies what each of the paths names. -/
def copyAll (paths : List Path) (source target : Document) : Document :=
  paths.foldl (fun target path => path.copy source target) target

/-- What stands at the end of a step is changed like this when the rests of many paths are copied from `x`. -/
def pasteAll (paths : List Path) (x there : Value) : Value := paths.foldl (fun there path => path.paste x there) there

/-- The rests of the paths that begin with the segment. -/
def restsBehind (segment : String) (paths : List Path) : List Path := paths.filterMap fun
  | [] => none
  | first :: rest => if first = segment then some rest else none

theorem restsBehind_cons_self (segment : String) (rest : Path) (paths : List Path) :
    restsBehind segment ((segment :: rest) :: paths) = rest :: restsBehind segment paths :=
  List.filterMap_cons_some (if_pos rfl)

theorem restsBehind_cons_of_ne (h : other ≠ segment) (rest : Path) (paths : List Path) :
    restsBehind segment ((other :: rest) :: paths) = restsBehind segment paths :=
  List.filterMap_cons_none (if_neg h)

theorem mem_restsBehind : rest ∈ restsBehind segment paths ↔ segment :: rest ∈ paths := by
  rw [restsBehind, List.mem_filterMap]
  constructor
  · rintro ⟨path, hpath, hrest⟩
    cases path with
    | nil => exact nomatch hrest
    | cons first more =>
      dsimp only at hrest
      split at hrest
      · next hfirst => rwa [← hfirst, ← Option.some.inj hrest]
      · exact nomatch hrest
  · exact fun h => ⟨_, h, if_pos rfl⟩

/-! ### One field -/

theorem absent_copy (h : source.get? segment = none → fieldOf segment (.object target) = .missing) (path : Path) :
    source.get? segment = none → fieldOf segment (.object (path.copy source target)) = .missing := by
  intro hget
  cases path with
  | nil => exact h hget
  | cons first rest =>
    by_cases hfirst : first = segment
    · rw [hfirst, copy_of_get?_none hget]
      exact h hget
    · rw [fieldOf_copy_of_ne hfirst]
      exact h hget

/-- The field of a segment gets what the rests behind the segment make of it. -/
theorem fieldOf_copyAll (paths : List Path)
    (h : source.get? segment = none → fieldOf segment (.object target) = .missing) :
    fieldOf segment (.object (copyAll paths source target)) =
      pasteAll (restsBehind segment paths) (fieldOf segment (.object source)) (fieldOf segment (.object target)) := by
  induction paths generalizing target with
  | nil => rfl
  | cons path more ih =>
    show fieldOf segment (.object (copyAll more source (path.copy source target))) = _
    rw [ih (absent_copy h path)]
    cases path with
    | nil => rfl
    | cons first rest =>
      by_cases hfirst : first = segment
      · subst hfirst
        rw [fieldOf_copy h, restsBehind_cons_self]
        rfl
      · rw [fieldOf_copy_of_ne hfirst, restsBehind_cons_of_ne hfirst]

/-! ### The names -/

/-- There is something to copy at the first step of a path: the field is there, and has parts if the path goes on. -/
def Copies (segment : String) (rest : Path) (source : Document) : Prop :=
  segment ∈ Fields.names source ∧ (rest = [] ∨ (fieldOf segment (.object source)).hasParts)

instance : Decidable (Copies segment rest source) := inferInstanceAs (Decidable (_ ∧ _))

theorem names_copy (segment : String) (rest : Path) (source target : Document) :
    Fields.names (copy (segment :: rest) source target) =
      if Copies segment rest source then Fields.names (target.insert segment .missing) else Fields.names target := by
  cases hget : source.get? segment with
  | none =>
    have hnot : ¬Copies segment rest source := fun h => by
      obtain ⟨v, hv⟩ := Fields.exists_get?_of_mem h.1
      exact nomatch hget.symm.trans hv
    rw [copy_of_get?_none hget, if_neg hnot]
  | some child =>
    have hiff : (rest.isEmpty || child.isArray || child.isObject) = true ↔ Copies segment rest source := by
      rw [Copies, and_iff_right (Fields.mem_names_of_get? hget), fieldOf_of_get? hget, hasParts, Bool.or_assoc,
        Bool.or_eq_true, List.isEmpty_iff]
    rw [copy_of_get? hget]
    simp only [hiff]
    split
    · exact Fields.names_insert_congr rfl segment _ _
    · rfl

theorem nodup_copy (path : Path) (h : (Fields.names target).Nodup) :
    (Fields.names (path.copy source target)).Nodup := by
  cases path with
  | nil => exact h
  | cons segment rest =>
    rw [names_copy]
    split
    · exact Fields.nodup_insert h
    · exact h

theorem mem_names_copyAll : segment ∈ Fields.names (copyAll paths source target) ↔
    segment ∈ Fields.names target ∨ ∃ rest, segment :: rest ∈ paths ∧ Copies segment rest source := by
  induction paths generalizing target with
  | nil => simp [copyAll]
  | cons path more ih =>
    have hstep : segment ∈ Fields.names (path.copy source target) ↔
        segment ∈ Fields.names target ∨ ∃ rest, path = segment :: rest ∧ Copies segment rest source := by
      cases path with
      | nil => simp [copy]
      | cons first rest =>
        rw [names_copy]
        split
        · next hcopies =>
          rw [Fields.mem_names_insert]
          refine or_congr_right ⟨?_, ?_⟩
          · rintro rfl
            exact ⟨rest, rfl, hcopies⟩
          · rintro ⟨_, heq, -⟩
            exact (List.cons.inj heq).1.symm
        · next hnot =>
          refine (or_iff_left ?_).symm
          rintro ⟨_, heq, hcopies⟩
          obtain ⟨rfl, rfl⟩ := List.cons.inj heq
          exact hnot hcopies
    show segment ∈ Fields.names (copyAll more source (path.copy source target)) ↔ _
    rw [ih, hstep, or_assoc]
    refine or_congr_right ?_
    simp only [List.mem_cons, or_and_right, exists_or, eq_comm]

theorem mem_names_source (h : segment ∈ Fields.names (copyAll paths source [])) : segment ∈ Fields.names source := by
  rcases mem_names_copyAll.mp h with hnil | ⟨rest, -, hcopies⟩
  · exact absurd hnil List.not_mem_nil
  · exact hcopies.1

/-- Copies make the same names of the same names if there is something to copy for the same paths. -/
theorem names_copyAll_congr (hnames : Fields.names target = Fields.names another) {first second : Document}
    (h : ∀ segment rest, segment :: rest ∈ paths → (Copies segment rest first ↔ Copies segment rest second)) :
    Fields.names (copyAll paths first target) = Fields.names (copyAll paths second another) := by
  induction paths generalizing target another with
  | nil => exact hnames
  | cons path more ih =>
    refine ih ?_ fun segment rest hmem => h segment rest (List.mem_cons_of_mem _ hmem)
    cases path with
    | nil => exact hnames
    | cons segment rest =>
      rw [names_copy, names_copy, if_congr (h segment rest List.mem_cons_self) rfl rfl, hnames,
        Fields.names_insert_congr hnames]

/-- A document that has all names of the source gets no new ones. -/
theorem names_copyAll_of_subset (h : Fields.names source ⊆ Fields.names target) :
    Fields.names (copyAll paths source target) = Fields.names target := by
  induction paths generalizing target with
  | nil => rfl
  | cons path more ih =>
    have hstep : Fields.names (path.copy source target) = Fields.names target := by
      cases path with
      | nil => rfl
      | cons segment rest =>
        rw [names_copy]
        split
        · next hcopies => rw [Fields.names_insert, if_pos (h hcopies.1)]
        · rfl
    exact (ih (hstep ▸ h)).trans hstep

/-! ### What the copies make of a value -/

/-- A copy of a value with parts has parts, and a copy of another one makes none. -/
theorem hasParts_paste (h : there.hasParts → x.hasParts) (path : Path) : (path.paste x there).hasParts = x.hasParts := by
  cases path with
  | nil => rfl
  | cons segment rest =>
    cases x with
    | array | object => rfl
    | _ => exact Bool.eq_false_iff.mpr fun hthere => Bool.noConfusion (h hthere)

theorem hasParts_pasteAll (hpaths : paths ≠ []) (h : there.hasParts → x.hasParts) :
    (pasteAll paths x there).hasParts = x.hasParts := by
  induction paths generalizing there with
  | nil => exact absurd rfl hpaths
  | cons path more ih =>
    have hpath := hasParts_paste h path
    cases more with
    | nil => exact hpath
    | cons => exact ih (List.cons_ne_nil _ _) fun hthere => hpath ▸ hthere

/-- Nothing is copied from a value without parts. -/
theorem pasteAll_of_not_hasParts (hx : x.hasParts = false) (hpaths : ∀ path ∈ paths, path ≠ []) :
    pasteAll paths x there = there := by
  induction paths with
  | nil => rfl
  | cons path more ih =>
    obtain ⟨hpath, hmore⟩ := List.forall_mem_cons.mp hpaths
    have hstep : path.paste x there = there := by
      obtain ⟨segment, rest, rfl⟩ := List.exists_cons_of_ne_nil hpath
      cases x with
      | array | object => exact Bool.noConfusion hx
      | _ => rfl
    show pasteAll more x (path.paste x there) = there
    rw [hstep, ih hmore]

theorem pasteAll_object (hsome : paths ≠ []) (hpaths : ∀ path ∈ paths, path ≠ []) (source : Document) (there : Value) :
    pasteAll paths (.object source) there = .object (copyAll paths source (fieldsOf there)) := by
  induction paths generalizing there with
  | nil => exact absurd rfl hsome
  | cons path more ih =>
    obtain ⟨hpath, hmore⟩ := List.forall_mem_cons.mp hpaths
    obtain ⟨segment, rest, rfl⟩ := List.exists_cons_of_ne_nil hpath
    cases more with
    | nil => rfl
    | cons => exact ih (List.cons_ne_nil _ _) hmore _

/-- Into the places for its objects an array is copied object by object. -/
theorem pasteAll_array (hsome : paths ≠ []) (hpaths : ∀ path ∈ paths, path ≠ []) (begin : Document → Document)
    (h : placesFor (objectsOf items) there = ((objectsOf items).map begin).map object) :
    pasteAll paths (.array items) there =
      .array (((objectsOf items).map fun inner => copyAll paths inner (begin inner)).map object) := by
  induction paths generalizing there begin with
  | nil => exact absurd rfl hsome
  | cons path more ih =>
    obtain ⟨hpath, hmore⟩ := List.forall_mem_cons.mp hpaths
    obtain ⟨segment, rest, rfl⟩ := List.exists_cons_of_ne_nil hpath
    have hstep : paste (segment :: rest) (.array items) there =
        .array (((objectsOf items).map fun inner => copy (segment :: rest) inner (begin inner)).map object) := by
      rw [List.map_map] at h ⊢
      exact paste_array h
    show pasteAll more (.array items) (paste (segment :: rest) (.array items) there) = _
    rw [hstep]
    cases more with
    | nil => rfl
    | cons =>
      -- The places that this path has filled are the places for the next one.
      refine ih (List.cons_ne_nil _ _) hmore _ ?_
      rw [placesFor, List.length_map, List.length_map, if_pos rfl]

/-! ### A second run -/

/-- A run begins with nothing or with its source. So does a second run, whose source is what the first one left; where
    the first run begins with its source, the second one does. -/
inductive Restarts {α : Type} (nothing source left : α) : α → α → Prop
  | anew : Restarts nothing source left nothing nothing
  | again : Restarts nothing source left nothing left
  | whole : Restarts nothing source left source left

namespace Restarts

variable {α β : Type} {nothing origin left start restart : α}

theorem map (f : α → β) (h : Restarts nothing origin left start restart) :
    Restarts (f nothing) (f origin) (f left) (f start) (f restart) := by
  cases h
  · exact anew
  · exact again
  · exact whole

theorem start_cases (h : Restarts nothing origin left start restart) : start = nothing ∨ start = origin := by
  cases h
  · exact .inl rfl
  · exact .inl rfl
  · exact .inr rfl

theorem restart_cases (h : Restarts nothing origin left start restart) : restart = nothing ∨ restart = left := by
  cases h
  · exact .inl rfl
  · exact .inr rfl
  · exact .inr rfl

end Restarts

/-- Copies from what the copies left leave the same. -/
def Settle (paths : List Path) : Prop := ∀ source start restart, (object source).Distinct →
  Restarts [] source (copyAll paths source start) start restart →
    copyAll paths (copyAll paths source start) restart = copyAll paths source start

section Values

variable {start restart : Value}

theorem objectsOf_map (objects : List Document) : objectsOf (objects.map object) = objects := by
  rw [objectsOf, List.filterMap_map]
  exact List.filterMap_some

/-- An array in its own place is copied into its items if all of them are objects, and into new places if not. -/
theorem placesFor_self (items : List Value) :
    placesFor (objectsOf items) (.array items) = (objectsOf items).map object ∨
      placesFor (objectsOf items) (.array items) = (objectsOf items).map fun _ => object [] := by
  rw [placesFor]
  split
  · next hlength =>
    refine .inl (map_objectsOf fun item hitem => ?_).symm
    have hsome := List.filterMap_length_eq_length.mp hlength.symm item hitem
    cases item with
    | object => rfl
    | _ => exact Bool.noConfusion hsome
  · exact .inr rfl

/-- Where the copies settle in each object of an array, they settle in the array. -/
theorem pasteAll_pasteAll_array (hsome : paths ≠ []) (hpaths : ∀ path ∈ paths, path ≠ [])
    (begin rebegin : Document → Document)
    (hstart : placesFor (objectsOf items) start = ((objectsOf items).map begin).map object)
    (hrestart : ∀ objects, pasteAll paths (.array items) start = .array (objects.map object) →
      placesFor objects restart = (objects.map rebegin).map object)
    (h : ∀ inner ∈ objectsOf items, copyAll paths (copyAll paths inner (begin inner))
      (rebegin (copyAll paths inner (begin inner))) = copyAll paths inner (begin inner)) :
    pasteAll paths (pasteAll paths (.array items) start) restart = pasteAll paths (.array items) start := by
  have hleft := pasteAll_array hsome hpaths begin hstart
  have hplaces := hrestart _ hleft
  -- The second run reads the objects that the first one has made, and their number is the same.
  rw [hleft, pasteAll_array hsome hpaths rebegin (by rwa [objectsOf_map]), objectsOf_map]
  refine congrArg (array <| List.map object ·) ?_
  rw [List.map_map]
  exact List.map_congr_left h

theorem pasteAll_pasteAll_of_not_hasParts (hx : x.hasParts = false) (hpaths : ∀ path ∈ paths, path ≠ [])
    (h : Restarts .missing x (pasteAll paths x start) start restart) :
    pasteAll paths (pasteAll paths x start) restart = pasteAll paths x start := by
  rw [pasteAll_of_not_hasParts hx hpaths] at h ⊢
  cases h with
  | anew | again => exact pasteAll_of_not_hasParts rfl hpaths
  | whole => exact pasteAll_of_not_hasParts hx hpaths

/-- Where the copies settle in objects, they settle in all values. -/
theorem pasteAll_pasteAll_of_ne_nil (hsettle : Settle paths) (hpaths : ∀ path ∈ paths, path ≠ []) (hx : x.Distinct)
    (h : Restarts .missing x (pasteAll paths x start) start restart) :
    pasteAll paths (pasteAll paths x start) restart = pasteAll paths x start := by
  by_cases hsome : paths = []
  · subst hsome
    cases h <;> rfl
  cases x with
  | object source =>
    rw [pasteAll_object hsome hpaths] at h ⊢
    rw [pasteAll_object hsome hpaths]
    exact congrArg object (hsettle source _ _ hx (h.map fieldsOf))
  | array items =>
    have hinner : ∀ inner ∈ objectsOf items, (object inner).Distinct := fun inner hinner =>
      hx.items _ (object_mem_of_mem_objectsOf hinner)
    have hthere : ∀ objects, pasteAll paths (.array items) start = .array (objects.map object) →
        placesFor objects (pasteAll paths (.array items) start) = (objects.map id).map object := fun objects hleft => by
      rw [hleft, placesFor, List.length_map, if_pos rfl, List.map_id]
    -- A restart pastes the array into new places, into what it has become, or into itself.
    cases h with
    | anew =>
      refine pasteAll_pasteAll_array hsome hpaths (fun _ => []) (fun _ => []) ?_ ?_ ?_
      · exact List.map_map.symm
      · exact fun objects _ => List.map_map.symm
      · exact fun inner hmem => hsettle inner _ _ (hinner inner hmem) .anew
    | again =>
      refine pasteAll_pasteAll_array hsome hpaths (fun _ => []) id ?_ hthere ?_
      · exact List.map_map.symm
      · exact fun inner hmem => hsettle inner _ _ (hinner inner hmem) .again
    | whole =>
      -- An array is its own place only if all its items are objects; otherwise its places are new.
      rcases placesFor_self items with hplaces | hplaces
      · refine pasteAll_pasteAll_array hsome hpaths id id (hplaces.trans ?_) hthere ?_
        · rw [List.map_id]
        · exact fun inner hmem => hsettle inner _ _ (hinner inner hmem) .whole
      · refine pasteAll_pasteAll_array hsome hpaths (fun _ => []) id (hplaces.trans ?_) hthere ?_
        · exact List.map_map.symm
        · exact fun inner hmem => hsettle inner _ _ (hinner inner hmem) .again
  | _ => exact pasteAll_pasteAll_of_not_hasParts rfl hpaths h

/-- A path that ends here leaves nothing of what was there, so only the paths behind the last one count. -/
theorem pasteAll_append_nil (before after : List Path) (x there : Value) :
    pasteAll (before ++ [] :: after) x there = pasteAll after x x := List.foldl_append

theorem pasteAll_pasteAll (hsettle : ∀ after : List Path, after ⊆ paths → Settle after) (hx : x.Distinct)
    (h : Restarts .missing x (pasteAll paths x start) start restart) :
    pasteAll paths (pasteAll paths x start) restart = pasteAll paths x start := by
  by_cases hnil : [] ∈ paths
  · -- The last path that ends here puts the whole value in place, so both runs begin with it.
    obtain ⟨after, before, hsplit, hafter⟩ := List.eq_append_cons_of_mem (List.mem_reverse.mpr hnil)
    have hpaths : paths = before.reverse ++ [] :: after.reverse := by
      simpa using congrArg List.reverse hsplit
    have hsubset : after.reverse ⊆ paths := fun path hpath =>
      hpaths ▸ List.mem_append_right _ (List.mem_cons_of_mem _ hpath)
    have hends : ∀ path ∈ after.reverse, path ≠ [] := fun path hpath heq =>
      hafter (heq ▸ List.mem_reverse.mp hpath)
    have hwhole : ∀ y there, pasteAll paths y there = pasteAll after.reverse y y := fun y there => by
      rw [hpaths, pasteAll_append_nil]
    rw [hwhole x, hwhole]
    exact pasteAll_pasteAll_of_ne_nil (hsettle _ hsubset) hends hx .whole
  · exact pasteAll_pasteAll_of_ne_nil (hsettle _ (List.Subset.refl _)) (fun path hpath heq => hnil (heq ▸ hpath)) hx h

end Values

/-! ### All paths -/

variable {start restart : Document}

theorem nodup_copyAll (h : (Fields.names start).Nodup) : (Fields.names (copyAll paths source start)).Nodup := by
  induction paths generalizing start with
  | nil => exact h
  | cons path more ih => exact ih (nodup_copy path h)

theorem eq_of_fields {first second : Document} (h : (Fields.names first).Nodup)
    (hnames : Fields.names first = Fields.names second)
    (hfields : ∀ segment, fieldOf segment (.object first) = fieldOf segment (.object second)) : first = second := by
  refine Fields.eq_of_names h hnames fun segment hsegment => ?_
  obtain ⟨v, hv⟩ := Fields.exists_get?_of_mem hsegment
  obtain ⟨w, hw⟩ := Fields.exists_get?_of_mem (hnames ▸ hsegment)
  have hsame := hfields segment
  rw [fieldOf_of_get? hv, fieldOf_of_get? hw] at hsame
  rw [hv, hw, hsame]

/-- What the copies left has something to copy for the same paths. -/
theorem copies_copyAll (h : segment :: rest ∈ paths) :
    Copies segment rest (copyAll paths source []) ↔ Copies segment rest source := by
  have hsome : restsBehind segment paths ≠ [] := List.ne_nil_of_mem (mem_restsBehind.mpr h)
  have hparts : (fieldOf segment (.object (copyAll paths source []))).hasParts =
      (fieldOf segment (.object source)).hasParts := by
    rw [fieldOf_copyAll paths fun _ => rfl]
    exact hasParts_pasteAll hsome nofun
  unfold Copies
  rw [hparts]
  refine and_congr_left fun hparts => ⟨mem_names_source, fun hsegment => ?_⟩
  exact mem_names_copyAll.mpr (.inr ⟨rest, h, hsegment, hparts⟩)

theorem absent_of_begins (segment : String) (h : start = [] ∨ start = source) :
    source.get? segment = none → fieldOf segment (.object start) = .missing := by
  rcases h with rfl | rfl
  · exact fun _ => rfl
  · exact fieldOf_of_get?_none

theorem distinct_fieldOf (h : (object source).Distinct) (segment : String) :
    (fieldOf segment (.object source)).Distinct := by
  cases hget : source.get? segment with
  | none =>
    rw [fieldOf_of_get?_none hget]
    exact .leaf rfl rfl
  | some v =>
    rw [fieldOf_of_get? hget]
    exact h.proper.get? hget

/-- By induction on a bound of the lengths: at each field the rests behind it are copied, and these are shorter. -/
theorem settle_of_length_lt (n : Nat) : ∀ paths : List Path, (∀ path ∈ paths, path.length < n) → Settle paths := by
  induction n with
  | zero =>
    intro paths hpaths source start restart _ hrun
    obtain rfl : paths = [] := List.eq_nil_iff_forall_not_mem.mpr fun path hpath =>
      Nat.not_lt_zero _ (hpaths path hpath)
    cases hrun <;> rfl
  | succ n ih =>
    intro paths hpaths source start restart hsource hrun
    -- A second run adds no names: it finds them all in place, or it asks for the same ones again.
    have hnames : Fields.names (copyAll paths source start) =
        Fields.names (copyAll paths (copyAll paths source start) restart) := by
      cases hrun with
      | anew => exact names_copyAll_congr rfl fun segment rest hmem => (copies_copyAll hmem).symm
      | again | whole => exact (names_copyAll_of_subset (List.Subset.refl _)).symm
    have hnodup : (Fields.names (copyAll paths source start)).Nodup := by
      rcases hrun.start_cases with rfl | rfl
      · exact nodup_copyAll List.nodup_nil
      · exact nodup_copyAll hsource.proper.nodup
    refine (eq_of_fields hnodup hnames fun segment => ?_).symm
    -- A field is a run of its own, which begins in the same way as the run of the document.
    have hrests : ∀ after : List Path, after ⊆ restsBehind segment paths → Settle after := fun after hafter =>
      ih after fun rest hrest => Nat.lt_of_succ_lt_succ (hpaths _ (mem_restsBehind.mp (hafter hrest)))
    have hfield := fieldOf_copyAll paths (absent_of_begins segment hrun.start_cases)
    have hfields := hrun.map fun doc => fieldOf segment (.object doc)
    rw [fieldOf_copyAll paths (absent_of_begins segment hrun.restart_cases)]
    rw [hfield] at hfields ⊢
    exact (pasteAll_pasteAll hrests (distinct_fieldOf hsource segment) hfields).symm

/-- Copies made again from what they left leave the same, with the fields in the same order. -/
theorem copyAll_copyAll (paths : List Path) (h : (object source).Distinct) :
    copyAll paths (copyAll paths source []) [] = copyAll paths source [] := by
  obtain ⟨n, hn⟩ : ∃ n, ∀ path ∈ paths, path.length < n :=
    ⟨(paths.map List.length).sum + 1, fun path hpath =>
      Nat.lt_succ_of_le (List.le_sum_of_mem (List.mem_map_of_mem hpath))⟩
  exact settle_of_length_lt n paths hn source [] [] h .anew

end Path

end DocQuery
