import FactIndex.Search.Field
import FactIndex.Store.World
import FactIndex.Text.Fields
import FactIndex.Text.Lowercase

/-!
# Sorting

The results of a query are sorted by properties, by the text to sort entities by, or by score. What a
query gives is labels of properties; what the search engine is given is names of fields.

## Main definitions

* `Sorting`: the fields to sort by.
* `Deployment.sorting`: the fields that the sort keys of a query stand for.
-/

namespace FactIndex

open FactIndex.Text

/-- The fields to sort by. -/
structure Sorting where
  /-- Each field with its order, the most important one first. -/
  orders : Table String String := []
  /-- The fields that results have to have. -/
  required : List String := []
  /-- Whether the order is to be random. -/
  isRandom : Bool := false
  /-- Whether no score is needed. -/
  constantScore : Bool := true
deriving DecidableEq

namespace Sorting

/-- The field that stands for the score. -/
def score : String := "_score"

/-- The fields of an entity's own sort key. The title decides between equal keys. -/
def ownFields : List String := ["subject.sortkey.sort", "subject.title.sort"]

/-- The sorting by score alone. -/
def byScore (order : String) : Sorting := { orders := [(score, order)], constantScore := false }

/-- An order in the form that the search engine takes. -/
def orderJson (order : String) : Json := .single "order" (.str order)

/-- The sorting in the form that the search engine takes. -/
def toJson (s : Sorting) : Json :=
  .arr (s.orders.map fun e => .single e.1 (orderJson e.2))

/-- Sorts by an entity's own sort key. -/
def addOwn (s : Sorting) (order : String) : Sorting :=
  { s with orders := ownFields.foldl (fun orders field => orders.put field order) s.orders }

/-- Sorts by a field, if it is not sorted by already. -/
def addField (s : Sorting) (field order : String) : Sorting :=
  if s.orders.has field then s else { s with orders := s.orders.put field order }

/-- Results have to have a field. -/
def require (s : Sorting) (field : String) : Sorting :=
  if s.required.contains field then s else { s with required := s.required ++ [field] }

variable {σ : Type}

/-- Sorts by the properties of a chain, whose labels are given. Only the last one is required. -/
def addChain (order : String) : List String → Option String → Sorting → Action σ Sorting
  | [], last, s => return match last with
    | some field => s.require field
    | none => s
  | label :: labels, _, s => do
    if label = score then addChain order labels none (s.addField score order)
    else
      let p := (← catalog).findProperty label
      let group := Field.group (← numberOf (.property p))
      addChain order labels (some (Field.inGroup group (Field.ofProperty p)))
        (s.addField (Field.inGroup group (Field.sortOf p)) order)

/-- Sorts by a key. One key stands for the score. -/
def addKey (scoreKey : String) (s : Sorting) (key : String × String) : Action σ Sorting := do
  let order := lowercase key.2
  let s := if occurs "rand" order then { s with isRandom := true } else s
  let isScore := scoreKey ≠ "" ∧ lowercase key.1 = lowercase scoreKey
  let s := if isScore then { s with constantScore := false } else s
  let label := if isScore then score else key.1
  if label = "" ∨ label = "#" then return s.addOwn order
  else addChain order (cut '.' label) none s

end Sorting

/-- The fields that the sort keys of a query stand for. An order by score takes the place of all
keys. -/
def Deployment.sorting {σ : Type} (d : Deployment σ) (keys : Table String String)
    (relevance : Option String) : Action σ Sorting :=
  match relevance with
  | some order => return Sorting.byScore order
  | none => keys.foldlM (Sorting.addKey d.settings.query.scoreKey) {}

end FactIndex
