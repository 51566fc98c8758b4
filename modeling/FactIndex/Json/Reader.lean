import FactIndex.Json.Token

/-!
# Reading JSON texts

The tokens of a text are taken one by one by a machine whose stack holds the arrays and objects that
are still open. A key that is given twice keeps its first position and its last value.

## Main definitions

* `Reading`: the open containers and what may come next.
* `Reading.step`, `Reading.stepFilled`: one token.
* `parse?`: the value of a text whose containers are nested at most so deep.
* `parseFilled?`: the same, where containers that hold nothing do not count.
-/

namespace FactIndex.Json

/-- A container that is still open, with what it holds so far. The elements of an array are kept
last first. -/
inductive Frame where
  | array (done : List Json)
  | object (done : Members) (key : String)

/-- What may come next. -/
inductive Expected where
  /-- A value. -/
  | value
  /-- A value, or the end of the array that has just been opened. -/
  | element
  /-- A key. -/
  | key
  /-- A key, or the end of the object that has just been opened. -/
  | member
  /-- The colon after a key. -/
  | colon
  /-- A comma or the end of the innermost container. -/
  | separator
deriving DecidableEq

/-- The state of the reading machine. -/
structure Reading where
  frames : List Frame
  expected : Expected
  result : Option Json

namespace Reading

/-- Nothing is read yet. -/
def start : Reading := ⟨[], .value, none⟩

/-- Hands a complete value to the innermost open container. -/
def deliver (frames : List Frame) (value : Json) : Reading :=
  match frames with
  | [] => ⟨[], .separator, some value⟩
  | .array done :: outer => ⟨.array (value :: done) :: outer, .separator, none⟩
  | .object done key :: outer => ⟨.object (Table.put done key value) key :: outer, .separator, none⟩

/-- Whether a value may come next. -/
def takesValue (expected : Expected) : Bool :=
  expected == .value || expected == .element

/-- One token. -/
def step (depth : Nat) (r : Reading) : Token → Option Reading
  | .openObject =>
    if takesValue r.expected && r.frames.length < depth then
      some ⟨.object [] "" :: r.frames, .member, none⟩
    else none
  | .openArray =>
    if takesValue r.expected && r.frames.length < depth then
      some ⟨.array [] :: r.frames, .element, none⟩
    else none
  | .closeObject =>
    match r.frames with
    | .object done _ :: outer =>
      if r.expected == .member || r.expected == .separator then some (deliver outer (.obj done))
      else none
    | _ => none
  | .closeArray =>
    match r.frames with
    | .array done :: outer =>
      if r.expected == .element || r.expected == .separator then
        some (deliver outer (.arr done.reverse))
      else none
    | _ => none
  | .colon => if r.expected == .colon then some { r with expected := .value } else none
  | .comma =>
    match r.frames with
    | .array _ :: _ => if r.expected == .separator then some { r with expected := .value } else none
    | .object _ _ :: _ =>
      if r.expected == .separator then some { r with expected := .key } else none
    | [] => none
  | .text value =>
    if takesValue r.expected then some (deliver r.frames (.str value))
    else
      match r.frames with
      | .object done _ :: outer =>
        if r.expected == .key || r.expected == .member then
          some ⟨.object done value :: outer, .colon, none⟩
        else none
      | _ => none
  | .plain value => if takesValue r.expected then some (deliver r.frames value) else none

/-- One token, where containers that hold nothing do not count. They are opened one level deeper, and
nothing may come into them there. -/
def stepFilled (depth : Nat) (r : Reading) : Token → Option Reading
  | .text value => if r.frames.length ≤ depth then r.step depth (.text value) else none
  | .plain value => if r.frames.length ≤ depth then r.step depth (.plain value) else none
  | token => r.step (depth + 1) token

end Reading

/-- How deep the containers of a stored description that hold something may be nested. -/
def storedDepth : Nat := 200

/-- How deep the containers of a cached text or of an argument may be nested. -/
def argumentDepth : Nat := 990

/-- The value of a JSON text with containers nested at most `depth` deep. -/
def parse? (depth : Nat) (text : String) : Option Json := do
  let tokens ← tokens? text.toList
  let reading ← tokens.foldlM (Reading.step depth) Reading.start
  reading.result

/-- The value of a JSON text with containers nested at most `depth` deep, apart from those that hold
nothing. -/
def parseFilled? (depth : Nat) (text : String) : Option Json := do
  let tokens ← tokens? text.toList
  let reading ← tokens.foldlM (Reading.stepFilled depth) Reading.start
  reading.result

end FactIndex.Json
