import Mathlib.Data.List.Basic
import DocQuery.Path

/-! Paths: their segments, and what they reach in the items of an array, where an item that a path does not reach
    shows as a gap. -/

namespace DocQuery

/-! ### Segments -/

theorem isOperatorName_append {f x : String} (h : isOperatorName f = false) :
    isOperatorName (f ++ "." ++ x) = false := by
  unfold isOperatorName at *
  cases hf : f.toList with
  | nil => simp [hf]
  | cons c rest => simpa [hf] using h

namespace Path

theorem ofString_ne_nil (text : String) : ofString text ≠ [] := by
  unfold ofString
  simp [List.splitOn_ne_nil]

theorem ofString_of_not_mem {text : String} (h : '.' ∉ text.toList) : ofString text = [text] := by
  rw [ofString, List.splitOn_eq_singleton h, List.map_singleton, String.ofList_toList]

/-- A dot joins two paths. -/
theorem ofString_join (name text : String) : ofString (name ++ "." ++ text) = ofString name ++ ofString text := by
  have hlist : (name ++ "." ++ text).toList = name.toList ++ '.' :: text.toList := by simp
  rw [ofString, hlist, List.splitOn_append_cons_self, List.map_append, ofString, ofString]

/-- A name in front of a path is its first segment. -/
theorem ofString_append {name text : String} (h : '.' ∉ name.toList) :
    ofString (name ++ "." ++ text) = name :: ofString text := by
  rw [ofString_join, ofString_of_not_mem h, List.singleton_append]

/-! ### Items -/

variable {segment : String} {rest : Path}

/-- What a path reaches in an item, or a gap. -/
def orGap (found : List Value) : List Value := if found.isEmpty then [.missing] else found

theorem orGap_ne_nil (found : List Value) : orGap found ≠ [] := by
  cases found <;> exact List.cons_ne_nil _ _

theorem mem_orGap {found : List Value} {c : Value} : c ∈ orGap found ↔ c ∈ found ∨ found = [] ∧ c = .missing := by
  cases found <;> simp [orGap]

/-- A path that does not begin with a position spreads over an array, but not over the arrays among its items. -/
theorem candidates_items (hsegment : index? segment = none) (items : List Value) :
    candidates (segment :: rest) (.array items) =
      items.flatMap fun item => orGap (if item.isObject then candidates (segment :: rest) item else []) := by
  rw [candidates, hsegment]
  refine List.flatMap_congr fun item _ => ?_
  cases item with
  | object fields => rw [orGap, Value.isObject, if_pos rfl, candidates]
  | _ => rfl

end Path

end DocQuery
