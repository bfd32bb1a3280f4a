import DocQuery.Proofs.Expr.Control
import DocQuery.Proofs.Expr.Named

/-! Evaluation respects a discipline. An expression fits a discipline if its strings do, what stands under
    `$literal` is admitted, and its faults of form may be reported. Then it comes to the same in all scopes that
    are alike, and to something that the discipline admits or reports. -/

namespace DocQuery

open Checked DocQuery.Expr

variable {D : Discipline} {v : Value} {name : String}

/-- Constants stand for themselves. -/
def Value.isConstant : Value → Bool
  | string _ | array _ | object _ => false
  | _ => true

/-! ### Reading -/

namespace Expr

variable {fields : List (String × Value)} {p : String} {s : Scope}

theorem ofItems_eq (operator? : String → Option Operator) : ∀ items,
    ofItems operator? items = items.map (ofValue operator?)
  | [] => rfl
  | v :: rest => by rw [ofItems, ofItems_eq operator? rest, List.map_cons]

theorem ofFields_eq (operator? : String → Option Operator) : ∀ fields,
    ofFields operator? fields = fields.map fun f => (f.1, ofValue operator? f.2)
  | [] => rfl
  | (name, v) :: rest => by rw [ofFields, ofFields_eq operator? rest, List.map_cons]

theorem source_ofValue (operator? : String → Option Operator) (v : Value) : (ofValue operator? v).source = v := by
  cases v <;> rfl

/-- Whether an object applies an operator shows in its names. -/
theorem invocation?_map {α β : Type} (g : α → β) (fields : List (String × α)) :
    invocation? (fields.map fun f => (f.1, g f.2)) = (invocation? fields).map (Option.map fun f => (f.1, g f.2)) := by
  unfold invocation?
  have hany : (fields.map fun f => (f.1, g f.2)).any (isOperatorName ·.1) = fields.any (isOperatorName ·.1) := by
    rw [List.any_map]
    rfl
  rw [hany]
  split
  · rfl
  · rcases fields with _ | ⟨f, _ | ⟨f', rest⟩⟩
    · rfl
    · rfl
    · simp only [List.map_cons, Fields.names, List.map_map]
      rfl

theorem invocation?_singleton {α : Type} {a : α} (h : isOperatorName name) :
    invocation? [(name, a)] = .ok (some (name, a)) := by
  rw [invocation?, if_neg (by simp [h])]

theorem evalString_cases (text : String) :
    (∃ reference, text.toList = '$' :: '$' :: reference ∧ evalString text = fun s => s.reference reference) ∨
      (evalString text = fun _ => .error .bareDollar) ∨
      (∃ path, text.toList = '$' :: path ∧ path.head? ≠ some '$' ∧
        evalString text = fun s => .ok ((Path.ofString (String.ofList path)).resolve s.root)) ∨
      evalString text = fun _ => .ok (.string text) := by
  unfold evalString
  split
  · next reference htext => exact .inl ⟨reference, htext, rfl⟩
  · exact .inr (.inl rfl)
  · next path hdollars _ htext =>
    refine .inr (.inr (.inl ⟨path, htext, fun hhead => ?_, rfl⟩))
    obtain ⟨reference, rfl⟩ := List.head?_eq_some_iff.mp hhead
    exact hdollars reference rfl
  · exact .inr (.inr (.inr rfl))

theorem evalObject_literal (v : Value) :
    evalObject operator? (ofFields operator? [("$literal", v)]) = fun _ => .ok v := by
  have hform : invocation? (ofFields operator? [("$literal", v)]) = .ok (some ("$literal", ofValue operator? v)) := by
    rw [ofFields, ofFields, invocation?, if_neg (by simp [isOperatorName])]
  have hop : operator? "$literal" = some Control.literal := rfl
  unfold evalObject
  rw [hform]
  simp only [hop]
  funext s
  show Except.ok (ofValue operator? v).source = _
  rw [source_ofValue]

/-- A dollar sign before a path reads the path. -/
theorem evalString_path (hp : p ≠ "") (hname : isOperatorName p = false) :
    evalString ("$" ++ p) = fun s => .ok ((Path.ofString p).resolve s.root) := by
  have htext : ("$" ++ p).toList = '$' :: p.toList := by simp
  unfold evalString
  rw [htext]
  split
  · next reference hdollar =>
    rw [isOperatorName, List.tail_eq_of_cons_eq hdollar] at hname
    exact Bool.noConfusion hname
  · next hnil => exact absurd (String.toList_eq_nil_iff.mp (List.tail_eq_of_cons_eq hnil)) hp
  · next path _ _ hpath => rw [← List.tail_eq_of_cons_eq hpath, String.ofList_toList]
  · next hother => exact (hother _ rfl).elim

theorem evaluate_path (hp : p ≠ "") (hname : isOperatorName p = false) :
    evaluate (.string ("$" ++ p)) s = .ok ((Path.ofString p).resolve s.root) := congrFun (evalString_path hp hname) s

theorem evaluate_remove (h : s.lookup "REMOVE" = none) : evaluate (.string "$$REMOVE") s = .ok .missing := by
  have hname : String.ofList ['R', 'E', 'M', 'O', 'V', 'E'] = "REMOVE" := rfl
  show evalString "$$REMOVE" s = _
  simp [evalString, Scope.reference, hname, Scope.valueOf, h]

theorem evaluate_literal : evaluate (.object [("$literal", v)]) s = .ok v := congrFun (evalObject_literal v) s

/-- The application of an operator. -/
theorem evaluate_operator (op : Operator) (hname : isOperatorName name) (h : operator? name = some op) :
    evaluate (.object [(name, v)]) s = op (ofValue operator? v) s := by
  show evalObject operator? (ofFields operator? [(name, v)]) s = _
  rw [ofFields, ofFields, evalObject, invocation?_singleton hname]
  simp only [h]

theorem eq_of_invocation? {f : String × Value} (h : invocation? fields = .ok (some f)) : fields = [f] := by
  unfold invocation? at h
  split at h
  · exact nomatch h
  · split at h
    · cases h
      rfl
    · exact nomatch h

theorem isOfForm_of_invocation? {fault : Fault} (h : invocation? fields = .error fault) : fault.isOfForm := by
  unfold invocation? at h
  split at h
  · exact nomatch h
  · split at h
    · exact nomatch h
    · cases h
      rfl

end Expr

namespace Discipline

variable {s t : Scope}

/-! ### Paths and variables -/

theorem admits_descend {segment : String} {rest : Value → Value} (hrest : ∀ v, D.Admits v → D.Admits (rest v))
    (h : D.Admits v) : D.Admits (Path.descend segment rest v) := by
  induction v with
  | object fields =>
    rw [Path.descend]
    split
    · next hget => exact hrest _ (D.admits_of_keeps (D.keeps_field h _ (Fields.mem_of_get?_eq_some hget)))
    · exact D.admits_missing
  | array items ih =>
    rw [Path.descend, Path.descendItems_eq]
    refine D.admits_of_keeps (D.keeps_array fun found hfound => ?_)
    obtain ⟨hfound, hmissing⟩ := List.mem_filter.mp hfound
    obtain ⟨item, hitem, rfl⟩ := List.mem_map.mp hfound
    refine D.keeps_of_admits (ih item hitem (D.admits_of_keeps (D.keeps_item h item hitem))) ?_
    simpa using hmissing
  | _ => exact D.admits_missing

theorem admits_resolve : ∀ (path : Path) {v : Value}, D.Admits v → D.Admits (path.resolve v)
  | [], _, h => h
  | _ :: rest, _, h => admits_descend (fun _ hv => admits_resolve rest hv) h

theorem agree_valueOf (hlookup : s.lookup name = t.lookup name) (hadmits : ∀ v, t.lookup name = some v → D.Admits v)
    (hroot : name = "ROOT" ∨ name = "CURRENT" → s.root = t.root ∧ D.Admits t.root) :
    D.Agree (s.valueOf name) (t.valueOf name) := by
  unfold Scope.valueOf
  rw [hlookup]
  split
  · next v hv => exact (gives_ok (hadmits v hv)).agree
  · split
    · rw [(hroot (.inl rfl)).1]
      exact (gives_ok (hroot (.inl rfl)).2).agree
    · rw [(hroot (.inr rfl)).1]
      exact (gives_ok (hroot (.inr rfl)).2).agree
    · exact (gives_ok D.admits_missing).agree
    · exact agree_error rfl

theorem agree_reference {text : List Char}
    (h : let name := String.ofList (text.takeWhile (· ≠ '.')); D.Agree (s.valueOf name) (t.valueOf name)) :
    D.Agree (s.reference text) (t.reference text) := by
  unfold Scope.reference
  dsimp only
  split
  · exact h
  · exact h.map fun _ hv => admits_resolve _ hv

/-- A string is steady if the variables that it may name are, and the paths that it may be. -/
theorem agree_evalString {text : String}
    (hvariable : ∀ reference, text.toList = '$' :: '$' :: reference →
      D.Agree (s.reference reference) (t.reference reference))
    (hpath : ∀ path, text.toList = '$' :: path → path.head? ≠ some '$' →
      Same D.Admits ((Path.ofString (String.ofList path)).resolve s.root)
        ((Path.ofString (String.ofList path)).resolve t.root)) :
    D.Agree (evalString text s) (evalString text t) := by
  rcases evalString_cases text with ⟨reference, htext, heq⟩ | heq | ⟨path, htext, hhead, heq⟩ | heq <;> rw [heq]
  · exact hvariable reference htext
  · exact agree_error rfl
  · exact .ok (hpath path htext hhead)
  · exact (gives_keeps (D.keeps_scalar rfl)).agree

/-! ### The operators -/

theorem respects_operator {op : Operator} (hname : name ≠ "$literal") (h : operator? name = some op) :
    D.Respects op := by
  have hall : ∀ op ∈ operators, op.1 ≠ "$literal" → D.Respects op.2 := by
    simp only [operators, List.forall_mem_append]
    refine ⟨⟨⟨⟨⟨⟨⟨?_, ?_⟩, ?_⟩, ?_⟩, ?_⟩, ?_⟩, ?_⟩, ?_⟩
    · exact fun op hop _ => Number.respects_operators op hop
    · exact fun op hop _ => Strings.respects_operators op hop
    · exact fun op hop _ => Relation.respects_operators op hop
    · exact Control.respects_operators
    · exact fun op hop _ => Dates.respects_operators op hop
    · exact fun op hop _ => Items.respects_operators op hop
    · exact fun op hop _ => Conversion.respects_operators op hop
    · exact fun op hop _ => Records.respects_operators op hop
  exact hall (name, op) (Fields.mem_of_get?_eq_some h) hname

/-! ### Fitting expressions -/

/-- What an expression must be like for its evaluation to respect the discipline. -/
inductive Fits (D : Discipline) : Value → Prop
  | constant {v : Value} : v.isConstant → Fits D v
  | string {text : String} :
    (∀ s t, D.Alike s t → D.Agree (evalString text s) (evalString text t)) → Fits D (.string text)
  | array {items : List Value} : (∀ v ∈ items, Fits D v) → Fits D (.array items)
  | literal {v : Value} : D.Admits v → Fits D (.object [("$literal", v)])
  | object {fields : List (String × Value)} : (∀ f ∈ fields, Fits D f.2) →
    (∀ fault, invocation? fields = .error fault → D.Reports fault) →
    (∀ name v, invocation? fields = .ok (some (name, v)) →
      name ≠ "$literal" ∧ (operator? name = none → D.Reports (.unknownOperator name))) → Fits D (.object fields)

/-- Where faults of form may be reported, an object asks nothing of its names. -/
theorem Fits.of_fields {fields : List (String × Value)} (hreports : ∀ fault : Fault, fault.isOfForm → D.Reports fault)
    (hfields : ∀ f ∈ fields, D.Fits f.2) (hliteral : ∀ v, fields = [("$literal", v)] → D.Admits v) :
    D.Fits (.object fields) := by
  by_cases h : ∃ v, fields = [("$literal", v)]
  · obtain ⟨v, rfl⟩ := h
    exact .literal (hliteral v rfl)
  · refine .object hfields (fun fault hfault => ?_) fun name v hinvoke => ⟨fun hname => ?_, fun _ => hreports _ rfl⟩
    · exact hreports fault (isOfForm_of_invocation? hfault)
    · exact h ⟨v, hname ▸ eq_of_invocation? hinvoke⟩

theorem fits_string_reporting {R : Fault → Prop} {hR : ∀ {e : Fault}, e.isOperational → R e} (text : String) :
    (reporting R hR).Fits (.string text) := by
  refine .string fun s _ hst => hst ▸ agree_evalString (fun reference _ => ?_) fun _ _ _ => ⟨rfl, trivial⟩
  exact agree_reference (agree_valueOf rfl (fun _ _ => trivial) fun _ => ⟨rfl, trivial⟩)

/-- Where any fault of form may be reported, and scopes are alike only to themselves, with admitted values in them, an
    expression only has to be admitted itself. -/
theorem fits_of_admits (hreports : ∀ fault : Fault, fault.isOfForm → D.Reports fault)
    (halike : ∀ s t, D.Alike s t → s = t ∧ D.Admits s.root ∧ ∀ binding ∈ s.bindings, D.Admits binding.2)
    (hv : D.Admits v) : D.Fits v := by
  induction v with
  | string text =>
    refine .string fun s t hst => ?_
    obtain ⟨rfl, hroot, hbindings⟩ := halike s t hst
    refine agree_evalString (fun reference _ => ?_) fun path _ _ => ⟨rfl, admits_resolve _ hroot⟩
    refine agree_reference (agree_valueOf rfl (fun v hv => ?_) fun _ => ⟨rfl, hroot⟩)
    exact hbindings _ (Fields.mem_of_get?_eq_some hv)
  | array items ih => exact .array fun v hmem => ih v hmem (D.admits_of_keeps (D.keeps_item hv v hmem))
  | object fields ih =>
    have hfields : ∀ f ∈ fields, D.Admits f.2 := fun f hf => D.admits_of_keeps (D.keeps_field hv f hf)
    refine .of_fields hreports (fun f hf => ih f hf (hfields f hf)) ?_
    rintro v rfl
    exact hfields _ List.mem_cons_self
  | _ => exact .constant rfl

theorem admits_constant (h : v.isConstant) : D.Admits v := by
  cases v with
  | missing => exact D.admits_missing
  | string | array | object => exact Bool.noConfusion h
  | _ => exact D.admits_of_keeps (D.keeps_scalar rfl)

theorem evalItems_related {items : List Expr} {s t : Scope} (hitems : ∀ e ∈ items, D.Sound e) (h : D.Alike s t) :
    Related (Same fun vs => ∀ v ∈ vs, D.Keeps v) D.Reports (evalItems items s) (evalItems items t) :=
  .mapM fun e he => ((hitems e he).agree h).map fun _ hv => keeps_orNull hv

theorem evalFields_related {s t : Scope} (h : D.Alike s t) : ∀ (fields : List (String × Expr)) {done : Document},
    (∀ f ∈ fields, D.Sound f.2) → D.Keeps (.object done) →
      Related (Same fun done => D.Keeps (.object done)) D.Reports (evalFields s fields done) (evalFields t fields done)
  | [], _, _, hdone => .ok ⟨rfl, hdone⟩
  | (name, e) :: rest, done, hfields, hdone => by
    obtain ⟨he, hrest⟩ := List.forall_mem_cons.mp hfields
    refine (Sound.agree he h).step fun v hv => evalFields_related h rest hrest ?_
    split
    · exact hdone
    · next hmissing => exact D.keeps_insert name hdone (D.keeps_of_admits hv (Bool.eq_false_iff.mpr hmissing))

theorem sound_of_fits (h : D.Fits v) : D.Sound (ofValue operator? v) := by
  induction h with
  | @constant v hv =>
    have hsteady : D.Steady (.leaf v fun _ => .ok v) := fun _ _ _ => (gives_ok (admits_constant hv)).agree
    cases v with
    | string | array | object => exact Bool.noConfusion hv
    | _ => exact .leaf hsteady
  | string h => exact .leaf h
  | @array items _ ih =>
    have hitems : ∀ e ∈ ofItems operator? items, D.Sound e := by
      intro e he
      rw [ofItems_eq] at he
      obtain ⟨v, hv, rfl⟩ := List.mem_map.mp he
      exact ih v hv
    refine .array (fun s t h => ?_) hitems
    exact (evalItems_related hitems h).map fun _ hvs => D.admits_of_keeps (D.keeps_array hvs)
  | @literal v hv =>
    -- What stands under `$literal` is not evaluated, so nothing is known of it but that it is admitted.
    refine .object (fun s t _ => ?_) fun f hf hname => absurd (congrArg Prod.fst (List.mem_singleton.mp hf)) hname
    show D.Agree (evalObject ..) (evalObject ..)
    rw [evalObject_literal]
    exact (gives_ok hv).agree
  | @object fields _ herror hinvoke ih =>
    have hfields : ∀ f ∈ ofFields operator? fields, D.Sound f.2 := by
      intro f hf
      rw [ofFields_eq] at hf
      obtain ⟨f, hmem, rfl⟩ := List.mem_map.mp hf
      exact ih f hmem
    refine .object (fun s t h => ?_) fun f hf _ => hfields f hf
    have hinvocation := ofFields_eq operator? fields ▸ invocation?_map (ofValue operator?) fields
    show D.Agree (evalObject ..) (evalObject ..)
    unfold evalObject
    rw [hinvocation]
    cases hform : invocation? fields with
    | error fault => exact .error (herror fault hform)
    | ok form =>
      rcases form with _ | ⟨name, v⟩
      · exact (evalFields_related h _ hfields D.keeps_empty).map fun _ hdone => D.admits_of_keeps hdone
      · obtain ⟨hname, hunknown⟩ := hinvoke name v hform
        simp only [Except.map, Option.map_some]
        cases hop : operator? name with
        | some op =>
          refine respects_operator hname hop _ (ih (name, v) ?_) s t h
          rw [eq_of_invocation? hform]
          exact List.mem_singleton_self _
        | none => exact .error (hunknown hop)

/-- Evaluation comes to the same in scopes that are alike, and to what the discipline admits or reports. -/
theorem evaluate_agree (h : D.Fits v) {s t : Scope} (hst : D.Alike s t) : D.Agree (evaluate v s) (evaluate v t) :=
  (sound_of_fits h).agree hst

end Discipline

end DocQuery
