import DocQuery.Filter.Reader
import DocQuery.Filter.Test

/-!
Queries: filters that have been checked.
-/

namespace DocQuery

/-- A filter in which every part has a meaning, with the value that writes it. -/
structure Query where
  source : Value
  filter : Filter := Filter.ofValue source
  filter_eq : filter = Filter.ofValue source := by rfl
  checked : filter.check = .ok ()

namespace Query

def ofValue (source : Value) : Checked Query :=
  let filter := Filter.ofValue source
  match h : filter.check with
  | .ok () => .ok { source, filter, checked := h }
  | .error fault => .error fault

/-- Is nothing asked? -/
def isEmpty (q : Query) : Bool := q.source.toObject?.any List.isEmpty

/-- Does the document pass the filter? -/
def test (q : Query) (search : Option TextSearch) (document : Value) : Checked Bool := q.filter.test search document

/-- Tests a document against a filter that has not been checked yet. -/
def testValue (source : Value) (search : Option TextSearch) (document : Value) : Checked Bool := do
  (← ofValue source).test search document

end Query

end DocQuery
