import FactIndex.Schema.Record
import FactIndex.Text.Characters
import FactIndex.Text.Fields

/-!
# Properties and comparators

A property relates an entity to values of one declared type. Used inversely, it leads from a value
back to the entities that have it. A comparator says how a value is compared with a given one.

## Main definitions

* `ValueType`: the declared types.
* `Property`: a property, direct or inverse.
* `Comparator`: the ten comparators, with `Comparator.normal` and `Comparator.isRange`.
-/

namespace FactIndex

open FactIndex.Schema FactIndex.Text

/-- The declared type of the values of a property. -/
inductive ValueType where
  | text
  | keyword
  | page
  | uri
  | time
  | number
  | boolean
  | geo
deriving DecidableEq

namespace ValueType

/-- The code of a type. -/
def code : ValueType → String
  | .text => "_txt"
  | .keyword => "_keyw"
  | .page => "_wpg"
  | .uri => "_uri"
  | .time => "_dat"
  | .number => "_num"
  | .boolean => "_boo"
  | .geo => "_geo"

/-- All types. -/
def all : List ValueType := [.text, .keyword, .page, .uri, .time, .number, .boolean, .geo]

/-- Reads the code of a type. -/
def read : Json → Checked ValueType := oneOf .enumeration (all.map fun t => (t.code, t))

end ValueType

/-- A property. The key is its stable name; those of the system start with an underscore. -/
structure Property where
  key : String
  valueType : ValueType := .page
  /-- Whether the property is followed from object to subject. -/
  inverse : Bool := false
deriving DecidableEq

namespace Property

/-- The property that relates an entity to its categories. -/
def instanceOf : Property := { key := "_INST" }

/-- The property, followed from subject to object. -/
def direct (p : Property) : Property := { p with inverse := false }

/-- Whether the values are entities. -/
def isPage (p : Property) : Bool := p.valueType == .page

/-- The name of the property in texts. A hyphen marks the inverse. -/
def label (p : Property) : String :=
  let name := trim (replaceChar '_' ' ' p.key)
  if p.inverse then "-" ++ name else name

/-- The JSON form of the property. -/
def toJson (p : Property) : Json :=
  .obj [("key", .str p.key), ("value_type", .str p.valueType.code), ("inverse", .bool p.inverse)]

/-- Reads the members of the JSON form. -/
def readMembers (ms : Members) : Checked Property :=
  onlyKnown ms ["key", "value_type", "inverse"] <|
    (fun key valueType inverse => { key, valueType, inverse }) <$>
      required ms "key" Schema.text <*>
      withDefault ms "value_type" .page ValueType.read <*>
      withDefault ms "inverse" false Schema.truth

/-- Reads the JSON form. -/
def read : Json → Checked Property := record readMembers

end Property

/-- How a value is compared with a given one. -/
inductive Comparator where
  | eq
  | neq
  | less
  | greater
  | leq
  | geq
  | like
  | nlike
  | primLike
  | primNlike
deriving DecidableEq

namespace Comparator

/-- The mark of a comparator. -/
def mark : Comparator → String
  | .eq => "="
  | .neq => "!"
  | .less => "<<"
  | .greater => ">>"
  | .leq => "<"
  | .geq => ">"
  | .like => "~"
  | .nlike => "!~"
  | .primLike => "like:"
  | .primNlike => "nlike:"

/-- The name of a comparator. -/
def name : Comparator → String
  | .eq => "EQ"
  | .neq => "NEQ"
  | .less => "LESS"
  | .greater => "GREATER"
  | .leq => "LEQ"
  | .geq => "GEQ"
  | .like => "LIKE"
  | .nlike => "NLIKE"
  | .primLike => "PRIM_LIKE"
  | .primNlike => "PRIM_NLIKE"

/-- All comparators. -/
def all : List Comparator :=
  [.eq, .neq, .less, .greater, .leq, .geq, .like, .nlike, .primLike, .primNlike]

/-- The comparator of a mark. -/
def ofMark? (s : String) : Option Comparator := (all.map fun c => (c.mark, c)).lookup s

/-- What stands before a value that is compared. Equality goes without a mark. -/
def lead (c : Comparator) : String := if c = .eq then "" else c.mark

/-- The comparator that the two primitive forms stand for. -/
def normal : Comparator → Comparator
  | .primLike => .like
  | .primNlike => .nlike
  | c => c

/-- Whether the comparator bounds a range. -/
def isRange : Comparator → Bool
  | .less | .greater | .leq | .geq => true
  | _ => false

/-- Whether the comparator holds of what does not compare. -/
def isNegated : Comparator → Bool
  | .neq | .nlike => true
  | _ => false

/-- Reads the mark of a comparator. -/
def read : Json → Checked Comparator := oneOf .enumeration (all.map fun c => (c.mark, c))

@[simp] theorem normal_normal (c : Comparator) : c.normal.normal = c.normal := by
  cases c <;> rfl

end Comparator

end FactIndex
