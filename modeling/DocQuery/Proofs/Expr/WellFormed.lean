import DocQuery.Proofs.Expr.Evaluation

/-! Well-formed expressions evaluate, in well-formed scopes, to well-formed values or to nothing. No expression at
    all reports that something is no document: only stages do. -/

namespace DocQuery

open Checked DocQuery.Expr Value

variable {e document : Value} {s : Scope}

/-! ### Faults -/

/-- Does the fault say, perhaps inside another one, that something is no document? -/
def Fault.isNotDocument : Fault → Bool
  | notDocument .. => true
  | inGroupId cause | inProperty _ cause => cause.isNotDocument
  | _ => false

namespace Fault

variable {f : Fault}

theorem isNotDocument_of_isOperational (h : f.isOperational) : f.isNotDocument = false := by
  cases f with
  | notDocument | inGroupId | inProperty => exact Bool.noConfusion h
  | _ => rfl

theorem isNotDocument_of_isOfForm (h : f.isOfForm) : f.isNotDocument = false := by
  cases f with
  | unknownOperator | operatorNotAlone => rfl
  | _ => exact Bool.noConfusion h

end Fault

/-- Any value may come up, but no fault that asks for a document. -/
def Discipline.documentFree : Discipline := .reporting (·.isNotDocument = false) Fault.isNotDocument_of_isOperational

theorem fits_documentFree (e : Value) : Discipline.documentFree.Fits e := by
  induction e with
  | string text => exact Discipline.fits_string_reporting text
  | array items ih => exact .array ih
  | object fields ih => exact .of_fields (fun _ => Fault.isNotDocument_of_isOfForm) ih fun _ _ => trivial
  | _ => exact .constant rfl

theorem isNotDocument_evaluate (e : Value) (s : Scope) :
    FailsWith (·.isNotDocument = false) (evaluate e s) :=
  (Discipline.evaluate_agree (fits_documentFree e) (rfl : s = s)).yields

/-! ### Values -/

/-- The root and the values of all variables are well formed or missing. -/
structure Scope.WellFormed (s : Scope) : Prop where
  root : s.root.WellFormedIfAny
  bindings : ∀ binding ∈ s.bindings, binding.2.WellFormedIfAny

namespace Scope.WellFormed

theorem ofRoot (h : document.WellFormed) : ({ root := document } : Scope).WellFormed :=
  ⟨h.ifAny, List.forall_mem_nil _⟩

theorem bind (h : s.WellFormed) (name : String) {v : Value} (hv : v.WellFormedIfAny) : (s.bind name v).WellFormed :=
  ⟨h.root, List.forall_mem_cons.mpr ⟨hv, h.bindings⟩⟩

end Scope.WellFormed

/-- Well-formed values are kept, and they or nothing come up. -/
def Discipline.wellFormed : Discipline where
  Alike s t := s = t ∧ s.WellFormed
  Admits := WellFormedIfAny
  Keeps := Value.WellFormed
  Reports := (·.isNotDocument = false)
  bind name h hv := ⟨congrArg (Scope.bind · name _) h.1, h.2.bind name hv⟩
  admits_missing := .inl rfl
  admits_of_keeps := .inr
  keeps_of_admits := WellFormedIfAny.of_not_missing
  keeps_scalar := .scalar
  keeps_array := .array
  keeps_item h := (h.of_not_missing rfl).items
  keeps_empty := .of_proper .nil
  keeps_insert name h hv := .of_proper (h.proper.insert name hv)
  keeps_field h := (h.of_not_missing rfl).proper.values
  reports := Fault.isNotDocument_of_isOperational

theorem fits_wellFormed (he : e.WellFormed) : Discipline.wellFormed.Fits e :=
  Discipline.fits_of_admits (fun _ => Fault.isNotDocument_of_isOfForm)
    (fun _ _ ⟨hst, hs⟩ => ⟨hst, hs.root, hs.bindings⟩) he.ifAny

/-- What comes up is well formed, or there is nothing. -/
theorem yields_evaluate (he : e.WellFormed) (hs : s.WellFormed) :
    Yields WellFormedIfAny (·.isNotDocument = false) (evaluate e s) :=
  (Discipline.evaluate_agree (fits_wellFormed he) ⟨rfl, hs⟩).yields

theorem yields_evaluateOn (he : e.WellFormed) (hdocument : document.WellFormed) :
    Yields WellFormedIfAny (·.isNotDocument = false) (evaluateOn e document) :=
  yields_evaluate he (.ofRoot hdocument)

end DocQuery
