import DocQuery.Proofs.Expr.Scalars

/-! Operators on arrays and objects. They take apart what they are given and put the parts together again:
    what they keep was kept before, or is a scalar, so they respect every discipline. -/

namespace DocQuery

open Checked Discipline

variable {D : Discipline} {v : Value} {operator : String}

theorem Value.gives_expectItems? (h : D.Admits v) :
    Yields (fun o => ∀ items, o = some items → ∀ v ∈ items, D.Keeps v) D.Reports (v.expectItems? operator) := by
  unfold expectItems?
  split
  · exact fun items h => nomatch h
  · exact fun items h => nomatch h
  · exact fun items hitems => Option.some.inj hitems ▸ D.keeps_item h
  · exact D.reports rfl

theorem Operates.gives {α : Type} {x : Checked α} {f : α → Checked Value} (h : Operates x)
    (hf : ∀ a, D.Gives (f a)) : D.Gives (x >>= f) :=
  h.reports.bind fun a _ => hf a

namespace Discipline

theorem gives_null : D.Gives (.ok .null) := gives_keeps (D.keeps_scalar rfl)

theorem admits_getD {o : Option Value} (h : ∀ v, o = some v → D.Keeps v) : D.Admits (o.getD .missing) := by
  cases o with
  | none => exact D.admits_missing
  | some v => exact D.admits_of_keeps (h v rfl)

theorem gives_array {items : List Value} (h : ∀ v ∈ items, D.Keeps v) : D.Gives (.ok (.array items)) :=
  gives_keeps (D.keeps_array h)

end Discipline

open Value

/-! ### Arrays -/

namespace Items

variable {list index first a : Value} {lists rest bounds : List Value}

theorem gives_elementAt (hlist : D.Admits list) : D.Gives (elementAt list index) := by
  refine (gives_expectItems? hlist).bind fun o ho => ?_
  split
  · exact gives_null
  · next items =>
    split
    · exact gives_null
    · refine operates_expectInt.gives fun n => gives_ok (admits_getD fun v hv => ?_)
      obtain ⟨i, -, hi⟩ := Option.bind_eq_some_iff.mp hv
      exact ho items rfl v (List.mem_of_getElem? hi)

theorem gives_concat_go : ∀ (lists : List Value) (parts : List (List Value)), (∀ v ∈ lists, D.Admits v) →
    (∀ part ∈ parts, ∀ v ∈ part, D.Keeps v) → D.Gives (concat.go lists parts)
  | [], parts, _, hparts => by
    refine gives_array fun v hv => ?_
    obtain ⟨part, hpart, hv⟩ := List.mem_flatten.mp hv
    exact hparts part (List.mem_reverse.mp hpart) v hv
  | list :: rest, parts, hlists, hparts => by
    obtain ⟨hlist, hrest⟩ := List.forall_mem_cons.mp hlists
    rw [concat.go]
    refine (gives_expectItems? hlist).bind fun o ho => ?_
    split
    · exact gives_null
    · next items =>
      exact gives_concat_go rest (items :: parts) hrest (List.forall_mem_cons.mpr ⟨ho items rfl, hparts⟩)

theorem gives_size : GivesScalar (size v) := by
  unfold size
  split <;> exact rfl

theorem mem_of_mem_takeEither {items : List Value} {count : Int} (h : v ∈ takeEither items count) : v ∈ items := by
  unfold takeEither at h
  split at h
  · exact List.mem_of_mem_take h
  · exact List.mem_of_mem_drop h

theorem mem_of_mem_window {items : List Value} {position : Int} {count : Nat}
    (h : v ∈ window items position count) : v ∈ items :=
  List.mem_of_mem_drop (List.mem_of_mem_take h)

theorem gives_slice (hlist : D.Admits list) : D.Gives (slice list first rest) := by
  unfold slice
  split
  · exact gives_null
  · split
    · next items =>
      have hitems := D.keeps_item hlist
      refine operates_expectInt.gives fun n => ?_
      split
      · exact gives_array fun v hv => hitems v (mem_of_mem_takeEither hv)
      · refine operates_expectInt.gives fun count => ?_
        dsimp only
        split
        · exact gives_error rfl
        · exact gives_array fun v hv => hitems v (mem_of_mem_window hv)
    · exact gives_error rfl

theorem gives_reverse (hlist : D.Admits list) : D.Gives (reverse list) := by
  refine (gives_expectItems? hlist).bind fun o ho => ?_
  split
  · exact gives_null
  · next items => exact gives_array fun v hv => ho items rfl v (List.mem_reverse.mp hv)

theorem gives_pick {choose : List Value → Option Value} (hchoose : ∀ items v, choose items = some v → v ∈ items)
    (hlist : D.Admits list) : D.Gives (pick operator choose list) := by
  refine (gives_expectItems? hlist).bind fun o ho => ?_
  split
  · exact gives_null
  · next items => exact gives_ok (admits_getD fun v hv => ho items rfl v (hchoose items v hv))

theorem operates_bound {default : Nat} {v : Option Value} : Operates (bound operator default v) := by
  unfold bound
  split
  · trivial
  · exact operates_expectInt.bind fun _ _ => trivial

theorem givesScalar_indexOf : GivesScalar (indexOf list v bounds) := by
  unfold indexOf
  split
  · exact rfl
  · exact rfl
  · refine operates_bound.then fun start => operates_bound.then fun stop => ?_
    split <;> exact rfl
  · exact rfl

theorem gives_range {start stop : Value} : D.Gives (range start stop rest) := by
  unfold range
  refine operates_expectInt.gives fun start => operates_expectInt.gives fun stop => ?_
  extract_lets build
  have hbuild : ∀ step, D.Gives (build step) := by
    intro step
    dsimp only [build]
    split
    · exact gives_error rfl
    · split
      · exact gives_error rfl
      · refine gives_array fun v hv => ?_
        obtain ⟨i, -, rfl⟩ := List.mem_map.mp hv
        exact D.keeps_scalar rfl
  split
  · exact operates_expectInt.gives hbuild
  · exact hbuild 1

theorem respects_operators : ∀ op ∈ operators, D.Respects op.2 := by
  simp only [operators, List.forall_mem_cons]
  exact ⟨.binary fun _ _ hlist _ => gives_elementAt hlist,
    .variadic fun lists hlists => gives_concat_go lists [] hlists (List.forall_mem_nil _),
    .unary_scalar fun _ => gives_size, .ranged fun _ _ _ hlist _ _ => gives_slice hlist,
    .unary fun _ hlist => gives_reverse hlist, .unary_scalar fun _ => rfl,
    .unary fun _ hlist => gives_pick (fun _ _ h => List.mem_of_head? h) hlist,
    .unary fun _ hlist => gives_pick (fun _ _ h => List.mem_of_getLast? h) hlist,
    .ranged_scalar fun _ _ _ => givesScalar_indexOf, .ranged fun _ _ _ _ _ _ => gives_range,
    List.forall_mem_nil _⟩

end Items

/-! ### Objects -/

namespace Records

variable {fields : Document} {item k : Value}

theorem keeps_pairOf {f : String × Value} (h : D.Keeps f.2) : D.Keeps (pairOf f) :=
  D.keeps_insert "v" (D.keeps_insert "k" D.keeps_empty (D.keeps_scalar rfl)) h

theorem gives_toPairs (h : D.Admits v) : D.Gives (toPairs v) := by
  unfold toPairs
  split
  · exact gives_null
  · exact gives_null
  · refine gives_array fun pair hpair => ?_
    obtain ⟨f, hf, rfl⟩ := List.mem_map.mp hpair
    exact keeps_pairOf (D.keeps_field h f hf)
  · exact gives_error rfl

theorem keeps_of_pair? (h : D.Keeps item) (hpair : pair? item = some (k, v)) : D.Keeps v := by
  unfold pair? at hpair
  split at hpair
  · obtain ⟨rfl, rfl⟩ := Prod.mk.inj (Option.some.inj hpair)
    exact D.keeps_field (D.admits_of_keeps h) ("v", _) (by simp)
  · obtain ⟨rfl, rfl⟩ := Prod.mk.inj (Option.some.inj hpair)
    exact D.keeps_field (D.admits_of_keeps h) ("v", _) (by simp)
  · obtain ⟨rfl, rfl⟩ := Prod.mk.inj (Option.some.inj hpair)
    exact D.keeps_item (D.admits_of_keeps h) _ (by simp)
  · exact nomatch hpair

theorem yields_insertPair (hfields : D.Keeps (.object fields)) (hitem : D.Keeps item) :
    Yields (fun fields => D.Keeps (.object fields)) D.Reports (insertPair fields item) := by
  unfold insertPair
  split
  · next hpair => exact D.keeps_insert _ hfields (keeps_of_pair? hitem hpair)
  · exact D.reports rfl
  · exact D.reports rfl

theorem gives_ofPairs (h : D.Admits v) : D.Gives (ofPairs v) := by
  unfold ofPairs
  split
  · exact gives_null
  · exact gives_null
  · next items =>
    have hpairs : Yields (fun fields => D.Keeps (.object fields)) D.Reports (items.foldlM insertPair []) :=
      .foldlM D.keeps_empty fun item hitem fields hfields => yields_insertPair hfields (D.keeps_item h item hitem)
    exact hpairs.bind fun _ hfields => gives_keeps hfields
  · exact gives_error rfl

theorem yields_mergeInto (hfields : D.Keeps (.object fields)) (hv : D.Admits v) :
    Yields (fun fields => D.Keeps (.object fields)) D.Reports (mergeInto fields v) := by
  unfold mergeInto
  split
  · exact hfields
  · exact hfields
  · exact keeps_merge hfields (D.keeps_field hv)
  · exact D.reports rfl

theorem gives_merge {vs : List Value} (hvs : ∀ v ∈ vs, D.Admits v) : D.Gives (merge vs) := by
  have hmerged : Yields (fun fields => D.Keeps (.object fields)) D.Reports (vs.foldlM mergeInto []) :=
    .foldlM D.keeps_empty fun v hv fields hfields => yields_mergeInto hfields (hvs v hv)
  exact hmerged.bind fun _ hfields => gives_keeps hfields

theorem respects_operators : ∀ op ∈ operators, D.Respects op.2 := by
  simp only [operators, List.forall_mem_cons]
  exact ⟨.unary fun _ h => gives_toPairs h, .unary fun _ h => gives_ofPairs h, .variadic fun _ h => gives_merge h,
    List.forall_mem_nil _⟩

end Records

end DocQuery
