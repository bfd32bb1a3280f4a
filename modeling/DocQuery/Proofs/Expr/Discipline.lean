import DocQuery.Expr.Basic
import DocQuery.Proofs.Checked.Related
import DocQuery.Proofs.Value.WellFormed

/-! What evaluation respects. A discipline says which scopes an evaluation must not tell apart, what it may
    come to and what it may report. An operator respects a discipline if it does so whenever all parts of the
    expression that it is applied to do: then it cannot matter which parts it evaluates, how often, and what
    it binds for them. -/

namespace DocQuery

open Checked

/-- Can an operator report this? What is wrong with the form of an expression shows when it is read, only a stage
    reports what is no document, and only readers say where a fault is. -/
def Fault.isOperational : Fault → Bool
  | unknownOperator _ | operatorNotAlone _ | notDocument .. | inGroupId _ | inProperty .. => false
  | _ => true

/-- Is this wrong with the form of an expression? -/
def Fault.isOfForm : Fault → Bool
  | unknownOperator _ | operatorNotAlone _ => true
  | _ => false

/-- The property holds of the expression and of all its parts. What stands under `$literal` is no part: it is
    never evaluated. -/
inductive Expr.Throughout (P : Expr → Prop) : Expr → Prop
  | leaf {source : Value} {eval : Scope → Checked Value} :
    P (.leaf source eval) → Throughout P (.leaf source eval)
  | array {source : Value} {eval : Scope → Checked Value} {items : List Expr} :
    P (.array source eval items) → (∀ e ∈ items, Throughout P e) → Throughout P (.array source eval items)
  | object {source : Value} {eval : Scope → Checked Value} {fields : List (String × Expr)} :
    P (.object source eval fields) → (∀ f ∈ fields, f.1 ≠ "$literal" → Throughout P f.2) →
      Throughout P (.object source eval fields)

namespace Expr.Throughout

variable {P : Expr → Prop} {e : Expr} {source : Value} {eval : Scope → Checked Value}

theorem here (h : e.Throughout P) : P e := by
  cases h <;> assumption

theorem items {items : List Expr} (h : (Expr.array source eval items).Throughout P) : ∀ e ∈ items, e.Throughout P := by
  cases h with | array _ h => exact h

theorem fields {fields : List (String × Expr)} (h : (Expr.object source eval fields).Throughout P) :
    ∀ f ∈ fields, f.1 ≠ "$literal" → f.2.Throughout P := by
  cases h with | object _ h => exact h

theorem arguments (h : e.Throughout P) : ∀ a ∈ e.arguments, a.Throughout P := by
  cases e with
  | array => exact h.items
  | _ => exact fun a ha => List.mem_singleton.mp ha ▸ h

end Expr.Throughout

/-- Scopes that are not told apart, values that may come up, values that may be kept in arrays and objects, and
    faults that may be reported. -/
structure Discipline where
  Alike : Scope → Scope → Prop
  Admits : Value → Prop
  Keeps : Value → Prop
  Reports : Fault → Prop
  bind {s t : Scope} {v : Value} (name : String) : Alike s t → Admits v → Alike (s.bind name v) (t.bind name v)
  admits_missing : Admits .missing
  admits_of_keeps {v : Value} : Keeps v → Admits v
  keeps_of_admits {v : Value} : Admits v → v.isMissing = false → Keeps v
  keeps_scalar {v : Value} : v.isScalar → Keeps v
  keeps_array {items : List Value} : (∀ v ∈ items, Keeps v) → Keeps (.array items)
  keeps_item {items : List Value} : Admits (.array items) → ∀ v ∈ items, Keeps v
  keeps_empty : Keeps (.object [])
  keeps_insert {fields : Document} {v : Value} (name : String) :
    Keeps (.object fields) → Keeps v → Keeps (.object (fields.insert name v))
  keeps_field {fields : Document} : Admits (.object fields) → ∀ f ∈ fields, Keeps f.2
  reports {e : Fault} : e.isOperational → Reports e

namespace Discipline

/-- Any value may come up. -/
def ofAlike (Alike : Scope → Scope → Prop) (Reports : Fault → Prop)
    (bind : ∀ {s t : Scope} (name : String) (v : Value), Alike s t → Alike (s.bind name v) (t.bind name v))
    (reports : ∀ {e : Fault}, e.isOperational → Reports e) : Discipline where
  Alike := Alike
  Admits _ := True
  Keeps _ := True
  Reports := Reports
  bind name h _ := bind name _ h
  admits_missing := trivial
  admits_of_keeps _ := trivial
  keeps_of_admits _ _ := trivial
  keeps_scalar _ := trivial
  keeps_array _ := trivial
  keeps_item _ _ _ := trivial
  keeps_empty := trivial
  keeps_insert _ _ _ := trivial
  keeps_field _ _ _ := trivial
  reports := reports

/-- Any value may come up in any scope. -/
def reporting (Reports : Fault → Prop) (reports : ∀ {e : Fault}, e.isOperational → Reports e) : Discipline :=
  ofAlike Eq Reports (fun name v h => congrArg (Scope.bind · name v) h) reports

variable {D : Discipline} {s t : Scope} {e : Expr} {v : Value} {x y : Checked Value} {fields : Fields Expr}
  {operator : String}

theorem keeps_orNull (h : D.Admits v) : D.Keeps v.orNull := by
  cases v with
  | missing => exact D.keeps_scalar rfl
  | _ => exact D.keeps_of_admits h rfl

theorem keeps_merge {fields other : Document} (h : D.Keeps (.object fields)) (hother : ∀ f ∈ other, D.Keeps f.2) :
    D.Keeps (.object (fields.merge other)) := by
  induction other generalizing fields with
  | nil => exact h
  | cons f rest ih =>
    obtain ⟨hf, hrest⟩ := List.forall_mem_cons.mp hother
    exact ih (D.keeps_insert f.1 h hf) hrest

/-! ### Steady expressions -/

/-- The value is admitted, or the fault may be reported. -/
def Gives (D : Discipline) (x : Checked Value) : Prop := Yields D.Admits D.Reports x

/-- Both come to the same, which is admitted or may be reported. -/
def Agree (D : Discipline) (x y : Checked Value) : Prop := Related (Same D.Admits) D.Reports x y

/-- The expression comes to the same in scopes that are alike. -/
def Steady (D : Discipline) (e : Expr) : Prop := ∀ s t, D.Alike s t → D.Agree (e.eval s) (e.eval t)

/-- The expression is steady with all its parts. -/
def Sound (D : Discipline) (e : Expr) : Prop := e.Throughout D.Steady

/-- The operator comes to the same in scopes that are alike, as long as all parts of its argument do. -/
def Respects (D : Discipline) (op : Operator) : Prop :=
  ∀ e, D.Sound e → ∀ s t, D.Alike s t → D.Agree (op e s) (op e t)

theorem gives_ok (h : D.Admits v) : D.Gives (.ok v) := h

theorem gives_keeps (h : D.Keeps v) : D.Gives (.ok v) := D.admits_of_keeps h

theorem gives_error {fault : Fault} (h : fault.isOperational) : D.Gives (.error fault) := D.reports h

/-- Scalars and the faults of operators are in every discipline. -/
theorem gives_of_scalar (h : Yields (·.isScalar) (·.isOperational) x) : D.Gives x :=
  h.mono (fun _ h => D.admits_of_keeps (D.keeps_scalar h)) fun _ h => D.reports h

theorem Gives.agree (h : D.Gives x) : D.Agree x x := related_of_yields h

theorem agree_error {fault : Fault} (h : fault.isOperational) : D.Agree (.error fault) (.error fault) :=
  .error (D.reports h)

theorem Sound.agree (he : D.Sound e) (h : D.Alike s t) : D.Agree (e.eval s) (e.eval t) := he.here s t h

/-! ### Arguments -/

theorem evalArguments (he : D.Sound e) (h : D.Alike s t) :
    Related (Same fun vs => ∀ v ∈ vs, D.Admits v) D.Reports (e.evalArguments s) (e.evalArguments t) :=
  .mapM fun a ha => Sound.agree (he.arguments a ha) h

theorem named {allowed : List String} (he : D.Sound e) (hliteral : "$literal" ∉ allowed) :
    Yields (fun fields => ∀ f ∈ fields, D.Sound f.2) D.Reports (e.named operator allowed) := by
  cases e with
  | object source eval fields =>
    rw [Expr.named]
    split
    · exact D.reports rfl
    · next hall =>
      intro f hf
      refine he.fields f hf fun hname => hliteral ?_
      have hallowed : allowed.contains f.1 := by simpa using List.find?_eq_none.mp hall f hf
      exact hname ▸ List.contains_iff_mem.mp hallowed
  | _ => exact D.reports rfl

theorem sound_of_get? {name : String} (hfields : ∀ f ∈ fields, D.Sound f.2) (h : fields.get? name = some e) :
    D.Sound e :=
  hfields _ (Fields.mem_of_get?_eq_some h)

theorem required (hfields : ∀ f ∈ fields, D.Sound f.2) (name : String) :
    Yields D.Sound D.Reports (Expr.required operator fields name) := by
  unfold Expr.required
  split
  · next h => exact sound_of_get? hfields h
  · exact D.reports rfl

theorem evalOptional (hfields : ∀ f ∈ fields, D.Sound f.2) (h : D.Alike s t) (name : String) :
    Related (Same fun o => ∀ v, o = some v → D.Admits v) D.Reports (Expr.evalOptional fields name s)
      (Expr.evalOptional fields name t) := by
  unfold Expr.evalOptional
  split
  · next e he =>
    refine ((sound_of_get? hfields he).agree h).map fun v hv w hw => ?_
    exact Option.some.inj hw ▸ hv
  · exact .ok ⟨rfl, fun v hv => nomatch hv⟩

/-! ### Operators on values -/

theorem Respects.variadic {f : List Value → Checked Value}
    (hf : ∀ vs, (∀ v ∈ vs, D.Admits v) → D.Gives (f vs)) : D.Respects (.variadic f) :=
  fun _ he _ _ h => (evalArguments he h).step fun vs hvs => (hf vs hvs).agree

theorem Respects.unary {f : Value → Checked Value} (hf : ∀ v, D.Admits v → D.Gives (f v)) :
    D.Respects (.unary operator f) := by
  intro e he s t h
  unfold Operator.unary
  split
  · exact (Sound.agree (he.items _ List.mem_cons_self) h).step fun v hv => (hf v hv).agree
  · exact agree_error rfl
  · exact (he.agree h).step fun v hv => (hf v hv).agree

theorem Respects.binary {f : Value → Value → Checked Value}
    (hf : ∀ a b, D.Admits a → D.Admits b → D.Gives (f a b)) : D.Respects (.binary operator f) := by
  intro e he s t h
  refine (evalArguments he h).step fun vs hvs => ?_
  split
  · obtain ⟨ha, hb, -⟩ := by simpa only [List.forall_mem_cons] using hvs
    exact (hf _ _ ha hb).agree
  · exact agree_error rfl

theorem Respects.ternary {f : Value → Value → Value → Checked Value}
    (hf : ∀ a b c, D.Admits a → D.Admits b → D.Admits c → D.Gives (f a b c)) : D.Respects (.ternary operator f) := by
  intro e he s t h
  refine (evalArguments he h).step fun vs hvs => ?_
  split
  · obtain ⟨ha, hb, hc, -⟩ := by simpa only [List.forall_mem_cons] using hvs
    exact (hf _ _ _ ha hb hc).agree
  · exact agree_error rfl

theorem Respects.ranged {more : Nat} {f : Value → Value → List Value → Checked Value}
    (hf : ∀ a b rest, D.Admits a → D.Admits b → (∀ v ∈ rest, D.Admits v) → D.Gives (f a b rest)) :
    D.Respects (.ranged operator more f) := by
  intro e he s t h
  refine (evalArguments he h).step fun vs hvs => ?_
  split
  · obtain ⟨ha, hb, hrest⟩ := by simpa only [List.forall_mem_cons] using hvs
    split
    · exact (hf _ _ _ ha hb hrest).agree
    · exact agree_error rfl
  · exact agree_error rfl

end Discipline

end DocQuery
