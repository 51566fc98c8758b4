import FactIndex.Fact.Property
import FactIndex.Text.Lowercase

/-!
# Fields of the indexed documents

A document holds the values of each property under a name made of the property's number, one array
for each type of value. The numbers of the entities among the values have an array of their own.

## Main definitions

* `Field.group`: the name under which a property's values lie.
* `Field.ofType`, `Field.sortOf`: the array of a type, and the field to sort by.
* `Field.numbers`: the array of entity numbers.
* `Field.keyword`: the indexed form of a keyword.
-/

namespace FactIndex

open FactIndex.Text

namespace Field

/-- The name under which the values of the property with the given number lie. -/
def group (number : Int) : String := "P:" ++ toString number

/-- The array that holds the values of a type. -/
def ofType : ValueType → String
  | .text => "txtField"
  | .keyword => "txtField"
  | .page => "wpgField"
  | .uri => "uriField"
  | .time => "datField"
  | .number => "numField"
  | .boolean => "booField"
  | .geo => "geoField"

/-- The array that holds the numbers of entities. -/
def numbers : String := "wpgID"

/-- The array of a property's values. -/
def ofProperty (p : Property) : String := ofType p.valueType

/-- The field by which a property's values are sorted. Texts have a form of their own for that. -/
def sortOf (p : Property) : String :=
  match p.valueType with
  | .text | .keyword | .page | .uri => ofProperty p ++ ".sort"
  | .time | .number | .boolean | .geo => ofProperty p

/-- The full name of an array in a group. -/
def inGroup (group array : String) : String := group ++ "." ++ array

/-- The indexed form of a keyword: its words in small letters, one blank between two. The writer and
the compiler share it. -/
def keyword (s : String) : String := lowercase (" ".intercalate (words s))

end Field

end FactIndex
