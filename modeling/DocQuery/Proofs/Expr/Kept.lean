import DocQuery.Proofs.Expr.Evaluation

/-! Values that are kept by evaluation. What a value has by its parts, and what all ways to change the fields of an
    object keep, the value of an expression has, too, if the expression has it and all values in the scope do. -/

namespace DocQuery

open Checked DocQuery.Expr Value

variable {K : Value → Prop} {e v document : Value} {s t : Scope}

/-- The property holds of the value, unless that is missing. -/
def Value.IfAny (K : Value → Prop) (v : Value) : Prop := v = missing ∨ K v

theorem Value.IfAny.of_not_missing (h : v.IfAny K) (hv : v.isMissing = false) : K v := by
  rcases h with rfl | h
  · exact Bool.noConfusion hv
  · exact h

/-- The property holds of the root and of the values of all variables, unless these are missing. -/
structure Scope.Keeps (K : Value → Prop) (s : Scope) : Prop where
  root : s.root.IfAny K
  bindings : ∀ binding ∈ s.bindings, binding.2.IfAny K

theorem Scope.Keeps.bind (h : s.Keeps K) (name : String) (hv : v.IfAny K) : (s.bind name v).Keeps K :=
  ⟨h.root, List.forall_mem_cons.mpr ⟨hv, h.bindings⟩⟩

/-- What is kept comes up, or nothing, and any fault may be reported. -/
def Discipline.keeping (hK : Kept K) : Discipline where
  Alike s t := s = t ∧ s.Keeps K
  Admits := IfAny K
  Keeps := K
  Reports _ := True
  bind name h hv := ⟨congrArg (Scope.bind · name _) h.1, h.2.bind name hv⟩
  admits_missing := .inl rfl
  admits_of_keeps := .inr
  keeps_of_admits := IfAny.of_not_missing
  keeps_scalar := hK.scalar
  keeps_array := hK.array
  keeps_item h := hK.items (h.of_not_missing rfl)
  keeps_empty := hK.empty
  keeps_insert name h hv := hK.insert name h hv
  keeps_field h := hK.fields (h.of_not_missing rfl)
  reports _ := trivial

/-- What comes up is kept, or there is nothing. -/
theorem yields_ifAny (hK : Kept K) (he : e.IfAny K) (hs : s.Keeps K) :
    Yields (IfAny K) (fun _ => True) (evaluate e s) := by
  have hfits : (Discipline.keeping hK).Fits e :=
    Discipline.fits_of_admits (fun _ _ => trivial) (fun _ _ ⟨hst, hs⟩ => ⟨hst, hs.root, hs.bindings⟩) he
  exact (Discipline.evaluate_agree hfits ⟨rfl, hs⟩).yields

theorem yields_ifAny_on (hK : Kept K) (he : e.IfAny K) (hdocument : document.IfAny K) :
    Yields (IfAny K) (fun _ => True) (evaluateOn e document) :=
  yields_ifAny hK he ⟨hdocument, List.forall_mem_nil _⟩

end DocQuery
