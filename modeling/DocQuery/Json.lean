import DocQuery.Double
import DocQuery.Fields

/-!
JSON values. A number without fraction and exponent that fits in 64 bits, signed or unsigned, is an
integer; every other number is a double.
-/

namespace DocQuery

inductive Json where
  | null
  | bool (b : Bool)
  | integer (n : Int)
  | double (x : Double)
  | string (s : String)
  | array (items : List Json)
  | object (members : List (String × Json))

namespace Json

instance : Inhabited Json := ⟨.null⟩

/-- The value of a member of an object. -/
def get? : Json → String → Option Json
  | .object members, name => Fields.get? members name
  | _, _ => none

end Json

end DocQuery
