import DocQuery.Proofs.Path.Copies
import DocQuery.Proofs.Stage.Projection

/-! What a projection leaves in a field that it computes. No other listed field changes it if their paths are beside it,
    so the value shows there. A missing value leaves no field, but for an `_id` that had been kept before anything was
    computed. -/

namespace DocQuery

open Checked Value

variable {name : String} {e v : Value} {there : Option Value} {p : Projection} {f : Path × Action}
  {fields before after : List (Path × Action)} {path q : Path} {source doc out : Document}

/-- What a field shows of a value: nothing if it is missing. -/
def Value.present? (v : Value) : Option Value := if v.isMissing then none else some v

theorem Value.present?_eq_none : v.present? = none ↔ v.isMissing := by
  unfold present?
  split <;> simp_all

namespace Path

theorem Beside.symm (h : path.Beside q) : q.Beside path := ⟨h.2, h.1⟩

theorem Beside.exists_cons (h : q.Beside [name]) : ∃ other rest, q = other :: rest ∧ other ≠ name := by
  cases q with
  | nil => exact absurd List.nil_prefix h.1
  | cons other rest =>
    refine ⟨other, rest, rfl, ?_⟩
    rintro rfl
    exact h.2 (List.cons_prefix_cons.mpr ⟨rfl, List.nil_prefix⟩)

end Path

/-- The field of a name is this one, and no name comes twice. -/
structure Shows (name : String) (there : Option Value) (doc : Document) : Prop where
  nodup : (Fields.names doc).Nodup
  get? : doc.get? name = there

namespace Shows

theorem set (h : Shows name there doc) (hq : q.Beside [name]) (v : Value) : Shows name there (q.set v doc) := by
  obtain ⟨other, rest, rfl, hne⟩ := hq.exists_cons
  rw [Path.set_cons]
  refine ⟨Fields.nodup_insert h.nodup, ?_⟩
  rw [Fields.get?_insert, if_neg hne, h.get?]

theorem set_self (h : Shows name there doc) (v : Value) : Shows name (some v) (Path.set [name] v doc) := by
  rw [Path.set_cons]
  refine ⟨Fields.nodup_insert h.nodup, ?_⟩
  rw [Fields.get?_insert, if_pos rfl, Path.put]

theorem copy (h : Shows name there doc) (hq : q.Beside [name]) (source : Document) :
    Shows name there (q.copy source doc) := by
  refine ⟨Path.nodup_copy q h.nodup, ?_⟩
  obtain ⟨other, rest, rfl, hne⟩ := hq.exists_cons
  cases hget : source.get? other with
  | none => rw [Path.copy_of_get?_none hget, h.get?]
  | some child =>
    rw [Path.copy_of_get? hget]
    split
    · rw [Fields.get?_insert, if_neg hne, h.get?]
    · exact h.get?

theorem remove (h : Shows name there doc) (hq : q.Beside [name]) : Shows name there (q.remove doc) := by
  obtain ⟨other, rest, rfl, hne⟩ := hq.exists_cons
  refine ⟨?_, by rw [Path.get?_remove_of_ne hne, h.get?]⟩
  cases rest with
  | nil => exact h.nodup.sublist ((Fields.erase_sublist doc other).map _)
  | cons next rest =>
    rw [Path.remove_cons_cons, Fields.names_modify]
    exact h.nodup

theorem remove_self (h : Shows name there doc) : Shows name none (Path.remove [name] doc) :=
  ⟨h.nodup.sublist ((Fields.erase_sublist doc name).map _), Fields.get?_erase h.nodup⟩

theorem assign (h : Shows name there doc) (hq : q.Beside [name]) (v : Value) : Shows name there (assign q v doc) := by
  unfold DocQuery.assign
  split
  · exact h.remove hq
  · exact h.set hq v

theorem assign_self (h : Shows name there doc) (v : Value) : Shows name v.present? (DocQuery.assign [name] v doc) := by
  unfold DocQuery.assign present?
  split
  · exact h.remove_self
  · exact h.set_self v

end Shows

namespace Projection

/-! ### The other fields -/

theorem shows_addField (h : Shows name there doc) (hf : f.1.Beside [name]) (source : Document) :
    Yields (Shows name there) (fun _ => True) (addField source doc f) := by
  obtain ⟨path, action⟩ := f
  cases action with
  | keep =>
    show Shows name there (if path = idPath then doc else path.copy source doc)
    split
    · exact h
    · exact h.copy hf source
  | drop => exact h
  | compute e =>
    refine Yields.bind .anyhow fun v _ => ?_
    show Shows name there (if v.isMissing then doc else path.set v doc)
    split
    · exact h
    · exact h.set hf v

theorem shows_changeField (h : Shows name there doc) (hf : f.1.Beside [name]) (source : Document) :
    Yields (Shows name there) (fun _ => True) (changeField source doc f) := by
  obtain ⟨path, action⟩ := f
  cases action with
  | keep => exact h
  | drop => exact h.remove hf
  | compute e => exact Yields.bind .anyhow fun v _ => h.assign hf v

theorem beside_of_others (h : (before ++ f :: after).Pairwise fun f g => f.1.Beside g.1) :
    ∀ g ∈ before ++ after, g.1.Beside f.1 := by
  obtain ⟨-, hbehind, hacross⟩ := List.pairwise_append.mp h
  obtain ⟨hafter, -⟩ := List.pairwise_cons.mp hbehind
  exact List.forall_mem_append.mpr ⟨fun g hg => hacross g hg f List.mem_cons_self, fun g hg => (hafter g hg).symm⟩

/-! ### The field itself -/

/-- A pass over the fields leaves what the one of the name writes, since the others do not change that. -/
theorem exists_shown {step : Document → Path × Action → Checked Document} {write : Value → Document → Document}
    {shown : Value → Option Value}
    (hothers : ∀ f ∈ before ++ after, f.1.Beside [name])
    (hstep : ∀ {there doc f}, Shows name there doc → f.1.Beside [name] →
      Yields (Shows name there) (fun _ => True) (step doc f))
    (hhere : ∀ doc, step doc ([name], .compute e) = do return write (← Expr.evaluateOn e (.object source)) doc)
    (hwrite : ∀ {doc} v, Shows name there doc → Shows name (shown v) (write v doc)) (hdoc : Shows name there doc)
    (hout : (before ++ ([name], .compute e) :: after).foldlM step doc = .ok out) :
    ∃ v, Expr.evaluateOn e (.object source) = .ok v ∧ out.get? name = shown v := by
  obtain ⟨hbefore, hafter⟩ := List.forall_mem_append.mp hothers
  rw [List.foldlM_append] at hout
  obtain ⟨reached, hreached, hout⟩ := bind_eq_ok.mp hout
  rw [List.foldlM_cons, hhere] at hout
  obtain ⟨written, hwritten, hout⟩ := bind_eq_ok.mp hout
  obtain ⟨v, hv, hsame⟩ := bind_eq_ok.mp hwritten
  obtain rfl := Except.ok.inj hsame
  -- Before and after the field only paths beside it are written.
  have hthere := (Yields.foldlM hdoc fun f hf _ h => hstep h (hbefore f hf)).of_eq_ok hreached
  have hshows := (Yields.foldlM (hwrite v hthere) fun f hf _ h => hstep h (hafter f hf)).of_eq_ok hout
  exact ⟨v, hv, hshows.get?⟩

theorem shows_start (hid : name = "_id" → p.dropsId = false) (source : Document) :
    Shows name (if name = "_id" then source.get? name else none) (p.start source) := by
  by_cases hname : name = "_id"
  · subst hname
    rw [if_pos rfl, start, if_neg (Bool.eq_false_iff.mp (hid rfl))]
    cases source.get? "_id" with
    | none => exact ⟨List.nodup_nil, rfl⟩
    | some id => exact ⟨List.nodup_singleton _, rfl⟩
  · rw [if_neg hname, start]
    split
    · exact ⟨List.nodup_nil, rfl⟩
    · cases source.get? "_id" with
      | none => exact ⟨List.nodup_nil, rfl⟩
      | some id => exact ⟨List.nodup_singleton _, (Fields.get?_cons ..).trans (if_neg (Ne.symm hname))⟩

/-- A missing value is not written, and what had been there stays. -/
theorem shows_written (h : Shows name (if name = "_id" then source.get? name else none) doc) (v : Value) :
    Shows name (if v.isMissing ∧ name = "_id" then source.get? name else v.present?)
      (if v.isMissing then doc else Path.set [name] v doc) := by
  unfold present?
  by_cases hmissing : v.isMissing
  · simpa only [hmissing, true_and, if_true] using h
  · simpa only [hmissing, Bool.false_eq_true, false_and, if_false] using h.set_self v

theorem dropsId_of_computed (hfields : p.fields = before ++ (idPath, .compute e) :: after)
    (hothers : ∀ f ∈ before ++ after, f.1.Beside idPath) : p.dropsId = false := by
  refine List.any_eq_false.mpr fun f hf hdrops => ?_
  obtain ⟨hdrop, hpath⟩ := Bool.and_eq_true_iff.mp hdrops
  have hother : f ∉ before ++ after := fun hmem => (hothers f hmem).1 (of_decide_eq_true hpath ▸ List.prefix_refl _)
  rw [hfields] at hf
  rcases List.mem_append.mp hf with hbefore | hrest
  · exact hother (List.mem_append_left _ hbefore)
  · rcases List.mem_cons.mp hrest with rfl | hafter
    · exact Bool.noConfusion hdrop
    · exact hother (List.mem_append_right _ hafter)

section Listed

variable (hbeside : p.fields.Pairwise fun f g => f.1.Beside g.1) (hlisted : ([name], .compute e) ∈ p.fields)
  (hsource : (Fields.names source).Nodup) (hout : p.applyTo source = .ok out)

include hbeside hlisted hsource hout

theorem exists_get?_applyTo : ∃ v, Expr.evaluateOn e (.object source) = .ok v ∧
    out.get? name = if v.isMissing ∧ p.isInclusion ∧ name = "_id" then source.get? name else v.present? := by
  obtain ⟨before, after, hfields⟩ := List.append_of_mem hlisted
  have hothers := beside_of_others (hfields ▸ hbeside)
  -- An inclusion begins with the `_id` of the source, and the others with the whole source.
  rw [applyTo] at hout
  split at hout
  · next hmode =>
    have hid : name = "_id" → p.dropsId = false := fun hname => by
      subst hname
      exact dropsId_of_computed hfields hothers
    rw [hfields] at hout
    simp only [hmode, true_and]
    exact exists_shown hothers (fun h hf => shows_addField h hf source) (fun _ => rfl) (fun v h => shows_written h v)
      (shows_start hid source) hout
  · next hmode =>
    rw [hfields] at hout
    simp only [hmode, Bool.false_eq_true, false_and, and_false, if_false]
    exact exists_shown hothers (fun h hf => shows_changeField h hf source) (fun _ => rfl) (fun v h => h.assign_self v)
      ⟨hsource, rfl⟩ hout

/-- A computed field shows its value, and a missing value leaves no field, if no listed path begins another one. The one
    exception is a missing value for `_id` in a projection that starts from nothing: the source has its `_id` kept. -/
theorem applyTo_computed : ∃ v, Expr.evaluateOn e (.object source) = .ok v ∧
    (out.get? name = if v.isMissing ∧ p.isInclusion ∧ name = "_id" then source.get? name else v.present?) ∧
    (out.get? name = v.present? ↔ ¬(v.isMissing ∧ p.isInclusion ∧ name = "_id" ∧ "_id" ∈ Fields.names source)) := by
  obtain ⟨v, hv, hget⟩ := exists_get?_applyTo hbeside hlisted hsource hout
  refine ⟨v, hv, hget, ?_⟩
  rw [hget]
  by_cases hkept : v.isMissing ∧ p.isInclusion ∧ name = "_id"
  · obtain ⟨hmissing, hmode, rfl⟩ := hkept
    rw [if_pos ⟨hmissing, hmode, rfl⟩, present?_eq_none.mpr hmissing, Fields.get?_eq_none_iff]
    simp only [hmissing, hmode, true_and]
  · rw [if_neg hkept]
    exact iff_of_true rfl fun h => hkept ⟨h.1, h.2.1, h.2.2.1⟩

end Listed

/-- A price under another name, and a note that is left out. -/
theorem applyTo_computed_price :
    let p : Projection := ⟨[(["price"], .compute (.string "$a")), (["note"], .compute (.string "$b")), (["a"], .drop)]⟩
    let source : Document := [("a", .int 2), ("note", .null)]
    let out : Document := [("price", .int 2)]
    (p.fields.Pairwise fun f g => f.1.Beside g.1) ∧ (["price"], .compute (.string "$a")) ∈ p.fields ∧
      (["note"], .compute (.string "$b")) ∈ p.fields ∧ (Fields.names source).Nodup ∧ p.applyTo source = .ok out ∧
      (∃ v, Expr.evaluateOn (.string "$a") (.object source) = .ok v ∧ out.get? "price" = v.present?) ∧
      ∃ v, Expr.evaluateOn (.string "$b") (.object source) = .ok v ∧ out.get? "note" = v.present? := by
  intro p source out
  have hbeside : p.fields.Pairwise fun f g => f.1.Beside g.1 := by decide
  have hprice : (["price"], .compute (.string "$a")) ∈ p.fields := List.mem_cons_self
  have hnote : (["note"], .compute (.string "$b")) ∈ p.fields := List.mem_cons_of_mem _ List.mem_cons_self
  have hsource : (Fields.names source).Nodup := by decide
  have hout : p.applyTo source = .ok out := rfl
  obtain ⟨v, hv, -, hshown⟩ := applyTo_computed hbeside hprice hsource hout
  obtain ⟨w, hw, -, hleft⟩ := applyTo_computed hbeside hnote hsource hout
  refine ⟨hbeside, hprice, hnote, hsource, hout, ⟨v, hv, hshown.mpr ?_⟩, w, hw, hleft.mpr ?_⟩
  · exact fun h => absurd h.2.2.1 (by decide)
  · exact fun h => absurd h.2.2.1 (by decide)

/-- An `_id` that is to be left out stays. -/
theorem not_applyTo_computed_id :
    let spec := Value.object [("_id", .string "$$REMOVE"), ("a", .int 1)]
    let p : Projection := ⟨[(["_id"], .compute (.string "$$REMOVE")), (["a"], .keep)]⟩
    let source : Document := [("_id", .int 1), ("a", .int 2)]
    Projection.ofValue spec = .ok p ∧ (p.fields.Pairwise fun f g => f.1.Beside g.1) ∧
      (["_id"], .compute (.string "$$REMOVE")) ∈ p.fields ∧ (object source).Distinct ∧
      p.applyTo source = .ok source ∧ Expr.evaluateOn (.string "$$REMOVE") (.object source) = .ok .missing ∧
      ¬∃ v, Expr.evaluateOn (.string "$$REMOVE") (.object source) = .ok v ∧ source.get? "_id" = v.present? := by
  intro spec p source
  have hremoved : Expr.evaluateOn (.string "$$REMOVE") (.object source) = .ok .missing := Expr.evaluate_remove rfl
  have hsource : (object source).Distinct :=
    (wellFormed_ofJson (.object [("_id", .integer 1), ("a", .integer 2)])).distinct
  have hout : p.applyTo source = .ok source := by
    show List.foldlM (addField source) [("_id", .int 1)] p.fields = _
    simp only [p, List.foldlM_cons, addField, hremoved]
    rfl
  refine ⟨rfl, by decide, List.mem_cons_self, hsource, hout, hremoved, ?_⟩
  rintro ⟨v, hv, hshown⟩
  obtain rfl := Except.ok.inj (hremoved.symm.trans hv)
  exact Option.some_ne_none _ hshown

end Projection

end DocQuery
