import FactIndex.Calendar.Time

/-!
# What values stand for

A number may come as a text, as a truth value or as a number of the other kind. What can be gone
through is a list, or stands for one.

## Main definitions

* `Json.toWhole`: the whole number that a value stands for. A fraction is dropped.
* `Json.toFloat`: the float that a value stands for.
* `Json.elements`: the elements of what can be gone through.
* `Json.paired`: the members that an object or a list of pairs stands for.
-/

namespace FactIndex

/-- The whole number that a value stands for. -/
def Json.toWhole : Json → Except Failure Int
  | .bool b => .ok (if b then 1 else 0)
  | .int n => .ok n
  | .float x => Calendar.truncateFloat x
  | .str s =>
    match Decimal.argumentInt? s with
    | some n => .ok n
    | none => .error .badValue
  | _ => .error .badType

/-- The float that a number or a text stands for. -/
def Json.toFloat : Json → Except Failure Float
  | .bool b => .ok (if b then 1 else 0)
  | .int n => Calendar.finite (Float.ofInt n)
  | .float x => .ok x
  | .str s =>
    match Decimal.argumentFloat? s with
    | some x => .ok x
    | none => .error .badValue
  | _ => .error .badType

/-- The elements of what can be gone through: those of a list, the characters of a text, the keys of
an object. -/
def Json.elements : Json → Except Failure (List Json)
  | .arr xs => .ok xs
  | .str s => .ok (s.toList.map fun c => .str (String.singleton c))
  | .obj ms => .ok (ms.map fun m => .str m.1)
  | _ => .error .badType

/-- A pair as a member. Lists and objects are no keys. -/
def Json.asMember (pair : Json) : Except Failure (String × Json) := do
  match ← pair.elements with
  | [.arr _, _] | [.obj _, _] => .error .badType
  | [key, value] => return (key.plainText, value)
  | _ => .error .badValue

/-- The members that an object or a list of pairs stands for. A repeated key keeps its place and takes
the last value. -/
def Json.paired : Json → Except Failure Members
  | .obj ms => .ok ms
  | value => do return Table.merge [] (← (← value.elements).mapM Json.asMember)

end FactIndex
