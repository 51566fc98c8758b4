import FactIndex.Table

/-!
# JSON values

The values that requests, answers, documents and stored queries are made of. Members of an object
keep their order, and an integer is a different value from a float of the same size.

## Main definitions

* `Json`: the values.
* `Members`: the members of an object.
* `Json.get?`: a member of a value that may be no object.
-/

namespace FactIndex

/-- A JSON value. Integers have any size and are kept apart from floats. -/
inductive Json where
  | null
  | bool (value : Bool)
  | int (value : Int)
  | float (value : Float)
  | str (value : String)
  | arr (elements : List Json)
  | obj (members : List (String × Json))

namespace Json

instance : Inhabited Json := ⟨.null⟩

/-! ## Equality -/

mutual

/-- Whether two values are the same, kind by kind and in the same order. -/
protected def decEq : (a b : Json) → Decidable (a = b)
  | .null, .null => isTrue rfl
  | .bool a, .bool b =>
    if h : a = b then isTrue (by rw [h]) else isFalse (by simp [h])
  | .int a, .int b =>
    if h : a = b then isTrue (by rw [h]) else isFalse (by simp [h])
  | .float a, .float b =>
    if h : a = b then isTrue (by rw [h]) else isFalse (by simp [h])
  | .str a, .str b =>
    if h : a = b then isTrue (by rw [h]) else isFalse (by simp [h])
  | .arr as, .arr bs =>
    match Json.decEqList as bs with
    | isTrue h => isTrue (by rw [h])
    | isFalse h => isFalse (by simp [h])
  | .obj as, .obj bs =>
    match Json.decEqMembers as bs with
    | isTrue h => isTrue (by rw [h])
    | isFalse h => isFalse (by simp [h])
  | .null, .bool _ | .null, .int _ | .null, .float _ | .null, .str _ | .null, .arr _
  | .null, .obj _ | .bool _, .null | .bool _, .int _ | .bool _, .float _ | .bool _, .str _
  | .bool _, .arr _ | .bool _, .obj _ | .int _, .null | .int _, .bool _ | .int _, .float _
  | .int _, .str _ | .int _, .arr _ | .int _, .obj _ | .float _, .null | .float _, .bool _
  | .float _, .int _ | .float _, .str _ | .float _, .arr _ | .float _, .obj _ | .str _, .null
  | .str _, .bool _ | .str _, .int _ | .str _, .float _ | .str _, .arr _ | .str _, .obj _
  | .arr _, .null | .arr _, .bool _ | .arr _, .int _ | .arr _, .float _ | .arr _, .str _
  | .arr _, .obj _ | .obj _, .null | .obj _, .bool _ | .obj _, .int _ | .obj _, .float _
  | .obj _, .str _ | .obj _, .arr _ => isFalse (by simp)

/-- Whether two lists of values are the same. -/
protected def decEqList : (as bs : List Json) → Decidable (as = bs)
  | [], [] => isTrue rfl
  | a :: as, b :: bs =>
    match Json.decEq a b, Json.decEqList as bs with
    | isTrue h, isTrue hs => isTrue (by rw [h, hs])
    | isFalse h, _ => isFalse (by simp [h])
    | _, isFalse hs => isFalse (by simp [hs])
  | [], _ :: _ => isFalse (by simp)
  | _ :: _, [] => isFalse (by simp)

/-- Whether two lists of members are the same. -/
protected def decEqMembers : (as bs : List (String × Json)) → Decidable (as = bs)
  | [], [] => isTrue rfl
  | (k, a) :: as, (l, b) :: bs =>
    if hk : k = l then
      match Json.decEq a b, Json.decEqMembers as bs with
      | isTrue h, isTrue hs => isTrue (by rw [hk, h, hs])
      | isFalse h, _ => isFalse (by simp [h])
      | _, isFalse hs => isFalse (by simp [hs])
    else isFalse (by simp [hk])
  | [], _ :: _ => isFalse (by simp)
  | _ :: _, [] => isFalse (by simp)

end

instance : DecidableEq Json := Json.decEq

end Json

/-- The members of an object, in order. -/
abbrev Members := Table String Json

namespace Json

/-- The member of a value. Only objects have members. -/
def get? : Json → String → Option Json
  | .obj ms, key => Table.get? ms key
  | _, _ => none

/-- An object with one member. -/
def single (key : String) (value : Json) : Json := .obj [(key, value)]

/-- A text, or nothing for no text. -/
def ofText? : Option String → Json
  | none => .null
  | some s => .str s

/-- An integer, or nothing for no integer. -/
def ofInt? : Option Int → Json
  | none => .null
  | some n => .int n

/-- A float, or nothing for no float. -/
def ofFloat? : Option Float → Json
  | none => .null
  | some x => .float x

/-- A list of texts. -/
def ofTexts (texts : List String) : Json := .arr (texts.map .str)

/-- A list of integers. -/
def ofInts (numbers : List Int) : Json := .arr (numbers.map .int)

/-- Whether the value counts as given: everything but nothing, `false`, zero and what is empty. -/
def isGiven : Json → Bool
  | .null => false
  | .bool b => b
  | .int n => n ≠ 0
  | .float x => !(x == 0.0)
  | .str s => s ≠ ""
  | .arr xs => !xs.isEmpty
  | .obj ms => !ms.isEmpty

end Json

end FactIndex
