import DocQuery.Fields

/-!
Edits of one field at a time.

The field of a name is looked for from the front. An edit changes the list at the place where it finds the
field, and hands out the value that stood there.
-/

namespace DocQuery.Fields

/-- What is done to the field of a name. -/
inductive Edit (α : Type) where
  | insert (name : String) (value : α)
  | overwrite (name : String) (value : α)
  | remove (name : String)

variable {α : Type}

def Edit.name : Edit α → String
  | insert name _ | overwrite name _ | remove name => name

/-- The value that the edit finds, and the fields after it. An insertion that finds nothing adds a field at
    the end; the other edits then do nothing. -/
def apply (fields : Fields α) (edit : Edit α) : Option α × Fields α :=
  match fields.findFinIdx? (·.1 == edit.name) with
  | some place =>
    (some fields[place].2,
      match edit with
      | .insert _ value | .overwrite _ value => fields.set place (fields[place].1, value)
      | .remove _ => fields.eraseIdx place)
  | none =>
    (none,
      match edit with
      | .insert name value => fields ++ [(name, value)]
      | .overwrite .. | .remove _ => fields)

end DocQuery.Fields
