import DocQuery.Proofs.Expr.Collections

/-! Operators that decide which of their parts are evaluated and in what scope. A chosen part is steady whatever
    the choice, and a variable that is bound to an admitted value leaves scopes alike. -/

namespace DocQuery.Control

open Checked Discipline Value

variable {D : Discipline} {s t : Scope}

/-! ### Connectives -/

theorem allHold_related : ∀ (es : List Expr), (∀ e ∈ es, D.Sound e) → D.Alike s t →
    Related (Same fun _ => True) D.Reports (allHold s es) (allHold t es)
  | [], _, _ => .ok ⟨rfl, trivial⟩
  | e :: rest, hes, h => by
    obtain ⟨he, hrest⟩ := List.forall_mem_cons.mp hes
    refine (he.agree h).step fun v _ => ?_
    split
    · exact allHold_related rest hrest h
    · exact .ok ⟨rfl, trivial⟩

theorem someHolds_related : ∀ (es : List Expr), (∀ e ∈ es, D.Sound e) → D.Alike s t →
    Related (Same fun _ => True) D.Reports (someHolds s es) (someHolds t es)
  | [], _, _ => .ok ⟨rfl, trivial⟩
  | e :: rest, hes, h => by
    obtain ⟨he, hrest⟩ := List.forall_mem_cons.mp hes
    refine (he.agree h).step fun v _ => ?_
    split
    · exact .ok ⟨rfl, trivial⟩
    · exact someHolds_related rest hrest h

theorem respects_and : D.Respects and := fun _ he _ _ h =>
  (allHold_related _ he.arguments h).map fun _ _ => D.admits_of_keeps (D.keeps_scalar rfl)

theorem respects_or : D.Respects or := fun _ he _ _ h =>
  (someHolds_related _ he.arguments h).map fun _ _ => D.admits_of_keeps (D.keeps_scalar rfl)

/-! ### Conditionals -/

theorem choose_agree {test yes no : Expr} (htest : D.Sound test) (hyes : D.Sound yes) (hno : D.Sound no)
    (h : D.Alike s t) : D.Agree (choose test yes no s) (choose test yes no t) := by
  refine (htest.agree h).step fun v _ => ?_
  split
  · exact hyes.agree h
  · exact hno.agree h

theorem respects_cond : D.Respects cond := by
  intro e he s t h
  unfold cond
  split
  · obtain ⟨htest, hyes, hno, -⟩ := by simpa only [List.forall_mem_cons] using he.items
    exact choose_agree htest hyes hno h
  · exact agree_error rfl
  · refine .of_yields (named he (by decide)) fun fields hfields => ?_
    refine .of_yields (required hfields _) fun test htest => ?_
    refine .of_yields (required hfields _) fun yes hyes => ?_
    exact .of_yields (required hfields _) fun no hno => choose_agree htest hyes hno h

theorem firstPresent_agree : ∀ (e : Expr) (rest : List Expr), D.Sound e → (∀ e ∈ rest, D.Sound e) → D.Alike s t →
    D.Agree (firstPresent s e rest) (firstPresent t e rest)
  | _, [], he, _, h => he.agree h
  | e, next :: rest, he, hrest, h => by
    obtain ⟨hnext, hrest⟩ := List.forall_mem_cons.mp hrest
    refine (he.agree h).step fun v hv => ?_
    split
    · exact firstPresent_agree next rest hnext hrest h
    · exact (gives_ok hv).agree

theorem respects_ifNull : D.Respects ifNull := by
  intro e he s t h
  unfold ifNull
  split
  · obtain ⟨hfirst, hrest⟩ := List.forall_mem_cons.mp he.items
    exact firstPresent_agree _ _ hfirst hrest h
  · exact agree_error rfl

theorem firstBranch_related : ∀ (branches : List Expr), (∀ e ∈ branches, D.Sound e) → D.Alike s t →
    Related (Same fun o => ∀ v, o = some v → D.Admits v) D.Reports (firstBranch s branches) (firstBranch t branches)
  | [], _, _ => .ok ⟨rfl, nofun⟩
  | branch :: rest, hbranches, h => by
    obtain ⟨hbranch, hrest⟩ := List.forall_mem_cons.mp hbranches
    refine .of_yields (named hbranch (by decide)) fun fields hfields => ?_
    refine .of_yields (required hfields _) fun test htest => ?_
    refine .of_yields (required hfields _) fun body hbody => ?_
    refine (htest.agree h).step fun v _ => ?_
    split
    · exact (hbody.agree h).map fun v hv w hw => Option.some.inj hw ▸ hv
    · exact firstBranch_related rest hrest h

theorem respects_switch : D.Respects switch := by
  intro e he s t h
  refine .of_yields (named he (by decide)) fun fields hfields => ?_
  refine .of_yields (required hfields _) fun branches hbranches => ?_
  split
  · refine (firstBranch_related _ hbranches.items h).step fun o ho => ?_
    split
    · next v => exact (gives_ok (ho v rfl)).agree
    · split
      · next e he => exact (sound_of_get? hfields he).agree h
      · exact agree_error rfl
  · exact agree_error rfl

/-! ### Variables -/

theorem operates_checkVariableName {operator name : String} : Operates (checkVariableName operator name) := by
  unfold checkVariableName
  split
  · trivial
  · exact rfl

theorem bindAll_related {outerS outerT : Scope} (houter : D.Alike outerS outerT) :
    ∀ (vars : List (String × Expr)) {s t : Scope}, (∀ f ∈ vars, f.1 ≠ "$literal" → D.Sound f.2) → D.Alike s t →
      Related D.Alike D.Reports (bindAll outerS vars s) (bindAll outerT vars t)
  | [], _, _, _, h => .ok h
  | (name, e) :: rest, s, t, hvars, h => by
    obtain ⟨he, hrest⟩ := List.forall_mem_cons.mp hvars
    by_cases hname : name = "$literal"
    · rw [hname]
      exact .error (D.reports rfl)
    · refine .of_yields (operates_checkVariableName.reports) fun _ _ => ?_
      have he : D.Sound e := he hname
      exact (he.agree houter).step fun v hv => bindAll_related houter rest hrest (D.bind name h hv)

theorem respects_letIn : D.Respects letIn := by
  intro e he s t h
  refine .of_yields (named he (by decide)) fun fields hfields => ?_
  refine .of_yields (required hfields _) fun vars hvars => ?_
  split
  · refine .of_yields (required hfields _) fun body hbody => ?_
    exact (bindAll_related h _ hvars.fields h).bind fun s' t' h' => hbody.agree h'
  · exact agree_error rfl

/-! ### Loops -/

theorem operates_loopVariable {operator : String} {fields : Fields Expr} : Operates (loopVariable operator fields) := by
  unfold loopVariable
  split
  · exact operates_checkVariableName.bind fun _ _ => trivial
  · exact rfl
  · trivial

theorem filterLimit?_related {fields : Fields Expr} (hfields : ∀ f ∈ fields, D.Sound f.2) (h : D.Alike s t) :
    Related (Same fun _ => True) D.Reports (filterLimit? fields s) (filterLimit? fields t) := by
  refine (evalOptional hfields h _).step fun o _ => related_of_yields ?_
  split
  · trivial
  · trivial
  · trivial
  · refine Yields.bind (operates_expectInt.reports) fun n _ => ?_
    dsimp only
    split
    · exact D.reports rfl
    · trivial

theorem keepItems_enough (condition : Expr) (name : String) (s : Scope) (items : List Value) :
    keepItems condition name s (some 0) items = .ok [] := by
  rw [keepItems]

theorem keepItems_nil (condition : Expr) (name : String) (s : Scope) (limit : Option Nat) :
    keepItems condition name s limit [] = .ok [] := by
  rcases limit with _ | _ | n <;> rfl

theorem keepItems_cons {limit : Option Nat} (hlimit : limit ≠ some 0) (condition : Expr) (name : String) (s : Scope)
    (item : Value) (rest : List Value) :
    keepItems condition name s limit (item :: rest) = (do
      if (← condition.eval (s.bind name item)).isTruthy then
        return item :: (← keepItems condition name s (limit.map (· - 1)) rest)
      else keepItems condition name s limit rest) := by
  rw [keepItems]
  exact hlimit

theorem keepItems_related {condition : Expr} {name : String} (hcondition : D.Sound condition) (h : D.Alike s t)
    {items : List Value} (hitems : ∀ v ∈ items, D.Keeps v) (limit : Option Nat) :
    Related (Same fun kept => ∀ v ∈ kept, D.Keeps v) D.Reports (keepItems condition name s limit items)
      (keepItems condition name t limit items) := by
  induction items generalizing limit with
  | nil =>
    rw [keepItems_nil, keepItems_nil]
    exact .ok ⟨rfl, List.forall_mem_nil _⟩
  | cons item rest ih =>
    obtain ⟨hitem, hrest⟩ := List.forall_mem_cons.mp hitems
    by_cases hlimit : limit = some 0
    · rw [hlimit, keepItems_enough, keepItems_enough]
      exact .ok ⟨rfl, List.forall_mem_nil _⟩
    · rw [keepItems_cons hlimit, keepItems_cons hlimit]
      -- Both scopes bind the same item, so they stay alike inside of the condition.
      refine (hcondition.agree (D.bind name h (D.admits_of_keeps hitem))).step fun v _ => ?_
      split
      · refine (ih hrest _).step fun kept hkept => ?_
        exact .ok ⟨rfl, List.forall_mem_cons.mpr ⟨hitem, hkept⟩⟩
      · exact ih hrest limit

theorem respects_filter : D.Respects filter := by
  intro e he s t h
  refine .of_yields (named he (by decide)) fun fields hfields => ?_
  refine .of_yields (required hfields _) fun input hinput => (hinput.agree h).step fun input hinput => ?_
  refine .of_yields (required hfields _) fun condition hcondition => ?_
  refine .of_yields (operates_loopVariable.reports) fun name _ => ?_
  refine (filterLimit?_related hfields h).step fun limit _ => ?_
  refine .of_yields (gives_expectItems? hinput) fun o ho => ?_
  split
  · exact gives_null.agree
  · next items =>
    exact (keepItems_related hcondition h (ho items rfl) limit).step fun kept hkept => (gives_array hkept).agree

theorem respects_map : D.Respects map := by
  intro e he s t h
  refine .of_yields (named he (by decide)) fun fields hfields => ?_
  refine .of_yields (required hfields _) fun input hinput => (hinput.agree h).step fun input hinput => ?_
  refine .of_yields (required hfields _) fun body hbody => ?_
  refine .of_yields (operates_loopVariable.reports) fun name _ => ?_
  refine .of_yields (gives_expectItems? hinput) fun o ho => ?_
  split
  · exact gives_null.agree
  · next items =>
    refine (Related.mapM fun item hitem => ?_).step fun vs hvs => (gives_array hvs).agree
    have hbound := D.bind name h (D.admits_of_keeps (ho items rfl item hitem))
    exact (hbody.agree hbound).map fun v hv => keeps_orNull hv

theorem respects_reduce : D.Respects reduce := by
  intro e he s t h
  refine .of_yields (named he (by decide)) fun fields hfields => ?_
  refine .of_yields (required hfields _) fun input hinput => (hinput.agree h).step fun input hinput => ?_
  refine .of_yields (required hfields _) fun initial hinitial => ?_
  refine .of_yields (required hfields _) fun body hbody => ?_
  refine .of_yields (gives_expectItems? hinput) fun o ho => ?_
  split
  · exact gives_null.agree
  · next items =>
    refine (hinitial.agree h).step fun first hfirst => Related.foldlM hfirst fun item hitem value hvalue => ?_
    exact hbody.agree (D.bind "this" (D.bind "value" h hvalue) (D.admits_of_keeps (ho items rfl item hitem)))

/-- All but `$literal`, which does not look at the value that it gives. -/
theorem respects_operators : ∀ op ∈ operators, op.1 ≠ "$literal" → D.Respects op.2 := by
  simp only [operators, List.forall_mem_cons]
  exact ⟨fun _ => respects_and, fun _ => respects_or, fun _ => .unary_scalar fun _ => rfl, fun _ => respects_cond,
    fun _ => respects_ifNull, fun _ => respects_switch, fun h => absurd rfl h, fun _ => respects_letIn,
    fun _ => respects_filter, fun _ => respects_map, fun _ => respects_reduce, List.forall_mem_nil _⟩

end DocQuery.Control
