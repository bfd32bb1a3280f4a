/-!
Fields in the order of their first insertion.

A list of pairs with distinct names is a finite map that remembers in which order its names came:
overwriting a field keeps its place, and a field that was removed comes back at the end.
-/

namespace DocQuery

/-- Does the name call for an operator? -/
def isOperatorName (name : String) : Bool := name.toList.head? == some '$'

abbrev Fields (α : Type) := List (String × α)

namespace Fields

variable {α β : Type}

def get? (fields : Fields α) (name : String) : Option α :=
  (fields.find? (·.1 == name)).map Prod.snd

def contains (fields : Fields α) (name : String) : Bool := fields.any (·.1 == name)

def names (fields : Fields α) : List String := fields.map Prod.fst

/-- Writes a field: in place if it is there, else at the end. -/
def insert (fields : Fields α) (name : String) (value : α) : Fields α :=
  match fields with
  | [] => [(name, value)]
  | (other, old) :: rest =>
    if other == name then (other, value) :: rest else (other, old) :: insert rest name value

/-- Drops the field. -/
def erase (fields : Fields α) (name : String) : Fields α :=
  match fields with
  | [] => []
  | (other, old) :: rest => if other == name then rest else (other, old) :: erase rest name

/-- Changes the value of the field if it is there. -/
def modify (fields : Fields α) (name : String) (f : α → α) : Fields α :=
  match fields with
  | [] => []
  | (other, old) :: rest => if other == name then (other, f old) :: rest else (other, old) :: modify rest name f

/-- The fields of a list of pairs; a repeated name keeps its first place and its last value. -/
def ofList (pairs : List (String × α)) : Fields α :=
  pairs.foldl (fun fields (name, value) => fields.insert name value) []

/-- Writes all fields of `other`, in their order. -/
def merge (fields other : Fields α) : Fields α :=
  other.foldl (fun fields (name, value) => fields.insert name value) fields

end Fields

end DocQuery
