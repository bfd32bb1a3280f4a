import DocQuery.Json
import DocQuery.Json.Token

/-!
Reading JSON text.

The parser walks over the tokens once with a stack of the arrays and objects that are still open. Text
nested deeper than 127 levels is refused, as is anything after the value.
-/

namespace DocQuery.Json

/-- An array or object that is still open, with what it holds so far. -/
inductive Frame where
  /-- The items are in reverse. -/
  | array (items : List Json)
  | object (members : List (String × Json)) (key : String)

/-- What may come next. -/
inductive Expect where
  | value
  /-- The first item of an array, or its end. -/
  | itemOrEnd
  /-- The first key of an object, or its end. -/
  | keyOrEnd (members : List (String × Json))
  | key (members : List (String × Json))
  | colon (members : List (String × Json)) (key : String)
  /-- A value is complete; a comma, the end of its container or the end of the text follows. -/
  | afterValue (value : Json)

structure State where
  frames : List Frame
  expect : Expect

/-- The deepest nesting that is read. -/
def maxDepth : Nat := 127

def State.start : State := ⟨[], .value⟩

def scalar? : Token → Option Json
  | .null => some .null
  | .bool b => some (.bool b)
  | .integer n => some (.integer n)
  | .double x => some (.double x)
  | .string s => some (.string s)
  | _ => none

/-- A token where a value must stand. Each container that is open has a frame. -/
def State.value (frames : List Frame) (token : Token) : Option State :=
  match token with
  | .openBracket => if frames.length < maxDepth then some ⟨.array [] :: frames, .itemOrEnd⟩ else none
  | .openBrace => if frames.length < maxDepth then some ⟨frames, .keyOrEnd []⟩ else none
  | token => (scalar? token).map fun value => ⟨frames, .afterValue value⟩

def State.step (s : State) (token : Token) : Option State :=
  match s.expect, token with
  | .value, token => State.value s.frames token
  | .itemOrEnd, .closeBracket => some ⟨s.frames.tail, .afterValue (.array [])⟩
  | .itemOrEnd, token => State.value s.frames token
  | .keyOrEnd members, .closeBrace => some ⟨s.frames, .afterValue (.object members)⟩
  | .keyOrEnd members, .string key | .key members, .string key => some ⟨s.frames, .colon members key⟩
  | .colon members key, .colon => some ⟨.object members key :: s.frames, .value⟩
  | .afterValue value, token =>
    match s.frames, token with
    | .array items :: frames, .comma => some ⟨.array (value :: items) :: frames, .value⟩
    | .array items :: frames, .closeBracket => some ⟨frames, .afterValue (.array (value :: items).reverse)⟩
    | .object members key :: frames, .comma => some ⟨frames, .key (Fields.insert members key value)⟩
    | .object members key :: frames, .closeBrace =>
      some ⟨frames, .afterValue (.object (Fields.insert members key value))⟩
    | _, _ => none
  | _, _ => none

def State.run (s : State) : List Token → Option State
  | [] => some s
  | token :: rest =>
    match s.step token with
    | some next => next.run rest
    | none => none

/-- The value that a JSON text writes. -/
def parse? (text : String) : Option Json := do
  match ← State.start.run (← scan text) with
  | ⟨[], .afterValue value⟩ => some value
  | _ => none

end DocQuery.Json
