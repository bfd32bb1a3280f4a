import DocQuery.Text.Numeral
import DocQuery.Value

/-!
Dotted paths into documents.

A path is the list of its segments. Filters, expressions and stages read paths differently: `get?`
walks through objects and array positions; `candidates` spreads over the items of an array, as filters
do; `resolve` maps the rest of the path over an array, as expressions do. Three writers set, remove and
copy what a path names.
-/

namespace DocQuery

abbrev Path := List String

namespace Path

/-- The parts of a string between the dots; there is always at least one. -/
def ofString (text : String) : Path := (text.toList.splitOn '.').map String.ofList

/-- The position that a segment names: digits, perhaps behind a plus sign, below `2 ^ 64`. -/
def index? (segment : String) : Option Nat :=
  let digits := match segment.toList with
    | '+' :: rest => rest
    | chars => chars
  let value := Text.naturalOf digits
  if !digits.isEmpty && digits.all Char.isDigit && value < UInt64.size then some value else none

/-! ### Reading -/

/-- One step of plain navigation. -/
def step? (v : Value) (segment : String) : Option Value :=
  match v with
  | .object fields => Fields.get? fields segment
  | .array items => (index? segment).bind (items[·]?)
  | _ => none

/-- The value at a path, through fields and array positions. -/
def get? : Path → Value → Option Value
  | [], v => some v
  | segment :: rest, v => (step? v segment).bind (get? rest)

/-- Every value that a filter sees at a path. A segment that is no position spreads over the items of an
    array; an item that the path does not reach shows as missing. None at all: the path is absent. -/
def candidates : Path → Value → List Value
  | [], v => [v]
  | segment :: rest, .object fields =>
    match Fields.get? fields segment with
    | some child => candidates rest child
    | none => []
  | segment :: rest, .array items =>
    match index? segment with
    | some i => match items[i]? with
      | some item => candidates rest item
      | none => []
    | none => items.flatMap fun item =>
      let found := match item with
        | .object fields => match Fields.get? fields segment with
          | some child => candidates rest child
          | none => []
        | _ => []
      if found.isEmpty then [.missing] else found
  | _ :: _, _ => []

mutual

/-- Takes one field and goes on with `rest`; an array does so with each of its items and keeps what is
    found. -/
def descend (segment : String) (rest : Value → Value) : Value → Value
  | .object fields =>
    match Fields.get? fields segment with
    | some child => rest child
    | none => .missing
  | .array items => .array (descendItems segment rest items)
  | _ => .missing

def descendItems (segment : String) (rest : Value → Value) : List Value → List Value
  | [] => []
  | item :: items =>
    let found := descend segment rest item
    if found.isMissing then descendItems segment rest items else found :: descendItems segment rest items

end

/-- The value that an expression sees at a path; missing if it is absent. -/
def resolve : Path → Value → Value
  | [], v => v
  | segment :: rest, v => descend segment (resolve rest) v

/-! ### Writing -/

/-- The fields of an object; none for other values. -/
def fieldsOf : Value → Document
  | .object fields => fields
  | _ => []

/-- Writes a value at a path. Objects are made where the path leads through something else; through an
    array the value goes into every item. -/
def set : Path → Value → Document → Document
  | [], _, doc => doc
  | [segment], value, doc => doc.insert segment value
  | segment :: next :: rest, value, doc =>
    match doc.get? segment with
    | some (.array items) =>
      doc.insert segment (.array (items.map fun item => .object (set (next :: rest) value (fieldsOf item))))
    | child => doc.insert segment (.object (set (next :: rest) value (fieldsOf (child.getD .missing))))

/-- Removes the last field of a path and leaves what is above it. -/
def remove : Path → Document → Document
  | [], doc => doc
  | [segment], doc => doc.erase segment
  | segment :: next :: rest, doc =>
    doc.modify segment fun child => match child with
      | .object fields => .object (remove (next :: rest) fields)
      | .array items => .array (items.map fun item => match item with
        | .object fields => .object (remove (next :: rest) fields)
        | item => item)
      | child => child

/-- Copies what a path names from `source` to `target` with the nesting around it. Of an array only the
    objects are copied, into the array of as many objects that is already there or a new one. -/
def copy : Path → Document → Document → Document
  | [], _, target => target
  | segment :: rest, source, target =>
    match source.get? segment with
    | none => target
    | some value =>
      match rest, value with
      | [], value => target.insert segment value
      | rest, .object inner =>
        target.insert segment (.object (copy rest inner (fieldsOf ((target.get? segment).getD .missing))))
      | rest, .array items =>
        let objects := items.filterMap Value.toObject?
        let places := match target.get? segment with
          | some (.array there) => if there.length = objects.length then there else objects.map fun _ => .object []
          | _ => objects.map fun _ => .object []
        target.insert segment (.array (places.zipWith (fun place inner => match place with
          | .object out => .object (copy rest inner out)
          | place => place) objects))
      | _, _ => target

end Path

end DocQuery
