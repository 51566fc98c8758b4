import FactIndex.Json.Basic
import FactIndex.Decimal.Layout
import FactIndex.Decimal.Binary
import FactIndex.Text.Quoted

/-!
# Values in messages, and loose equality

How a value is shown in a message, and when two values count as the same although they are written
differently.

## Main definitions

* `Json.display`: a value as it is shown in a message.
* `Json.plainText`: the text of a value, a text being its own.
* `Json.same`: equality up to the order of members and the kind of a number.
-/

namespace FactIndex.Json

open FactIndex.Decimal FactIndex.Text

mutual

/-- A value as it is shown in a message. -/
def display : Json → String
  | .null => "None"
  | .bool true => "True"
  | .bool false => "False"
  | .int n => toString n
  | .float x => Layout.literal.write x
  | .str s => quoted s
  | .arr xs => "[" ++ ", ".intercalate (displayList xs) ++ "]"
  | .obj ms => "\x7b" ++ ", ".intercalate (displayMembers ms) ++ "\x7d"

/-- The elements of an array as they are shown. -/
def displayList : List Json → List String
  | [] => []
  | x :: xs => display x :: displayList xs

/-- The members of an object as they are shown. -/
def displayMembers : List (String × Json) → List String
  | [] => []
  | (k, v) :: ms => (quoted k ++ ": " ++ display v) :: displayMembers ms

end

/-- The text of a value. A text is its own, all else is displayed. -/
def plainText : Json → String
  | .str s => s
  | value => display value

/-- The exact value of a number. Truth values count as one and zero. -/
def exactNumber? : Json → Option Binary
  | .bool b => some ⟨false, if b then 1 else 0, 0⟩
  | .int n => some ⟨n < 0, n.natAbs, 0⟩
  | .float x => binary? x
  | _ => none

/-- Whether two exact values are equal. -/
def sameExact (a b : Binary) : Bool :=
  let (p, q) := a.fraction
  let (r, s) := b.fraction
  p * s == r * q && (p == 0 || a.negative == b.negative)

/-- Whether two numbers are equal, whatever their kinds. -/
def sameNumber (a b : Json) : Bool :=
  match a, b with
  | .float x, .float y => x == y
  | a, b =>
    match exactNumber? a, exactNumber? b with
    | some p, some q => sameExact p q
    | _, _ => false

mutual

/-- Whether two values are the same up to the order of members and the kind of a number. -/
def same : Json → Json → Bool
  | .null, .null => true
  | .str a, .str b => a == b
  | .arr as, .arr bs => sameList as bs
  | .obj as, .obj bs => as.length == bs.length && sameMembers as bs
  | a, b => sameNumber a b

/-- Whether two lists hold the same values. -/
def sameList : List Json → List Json → Bool
  | [], [] => true
  | a :: as, b :: bs => same a b && sameList as bs
  | _, _ => false

/-- Whether every member occurs among the others. -/
def sameMembers : List (String × Json) → List (String × Json) → Bool
  | [], _ => true
  | (k, v) :: as, bs =>
    (match Table.get? bs k with
      | some w => same v w
      | none => false) && sameMembers as bs

end

end FactIndex.Json
