import DocQuery.Filter.Reader
import DocQuery.Proofs.Checked
import DocQuery.Proofs.Filter.Parts

/-! What checking a filter is good for. Where it passes, all parts have a meaning, but for the conditions in lists of
    wanted values: these are not checked, and what is wrong with them shows when a document is tested. Where they
    are in order as well, testing fails on no document. -/

namespace DocQuery

open Checked

/-- Neither an expression, which may fail on a document, nor a search for words. -/
def Filter.isPlain : Filter → Bool
  | holds _ | text _ => false
  | _ => true

theorem checkFilters_eq_ok : ∀ {fs : List Filter}, checkFilters fs = .ok () ↔ ∀ f ∈ fs, f.check = .ok ()
  | [] => iff_of_true rfl (List.forall_mem_nil _)
  | f :: rest => by rw [checkFilters, seq_eq_ok, List.forall_mem_cons, checkFilters_eq_ok]

namespace Condition

variable {c : Condition} {F : Fault → Prop}

end Condition

namespace Filter

variable {f : Filter} {F : Fault → Prop} {search : Option TextSearch}

end Filter

end DocQuery
