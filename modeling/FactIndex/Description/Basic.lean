import FactIndex.Fact.Item
import FactIndex.Fact.Property

/-!
# Descriptions

A description says which entities are meant. It is a tree: conditions on categories, concepts,
namespaces and properties, joined by "all of" and "one of".

## Main definitions

* `Description`: the eight kinds of nodes.
* `Description.size`, `Description.depth`: two measures of the tree.
* `Description.queryText`, `Description.valueText`: the description as the text of a query, and as
  that of a value in one.
-/

namespace FactIndex

/-- Which entities are meant. -/
inductive Description where
  /-- Those that every member describes. -/
  | conjunction (members : List Description)
  /-- Those that a member describes. -/
  | disjunction (members : List Description)
  /-- Those of a category, down to a depth of subcategories if one is given. -/
  | category (categories : List Entity) (depth : Option Int) (negated : Bool)
  /-- Those of a concept, which is a stored description. -/
  | concept (concept : Entity)
  /-- Those of a namespace. -/
  | space (space : Int)
  /-- Those with a property whose value is described, down to a depth of subproperties if one is
  given. -/
  | someProperty (property : Property) (inner : Description) (depth : Option Int)
  /-- Those that compare with an item. -/
  | value (item : Item) (comparator : Comparator) (property : Option Property)
  /-- All entities, or none if negated. -/
  | thing (negated : Bool)

namespace Description

/-- The name of the kind of a description. -/
def kindName : Description → String
  | .conjunction _ => "Conjunction"
  | .disjunction _ => "Disjunction"
  | .category _ _ _ => "ClassDescription"
  | .concept _ => "ConceptDescription"
  | .space _ => "NamespaceDescription"
  | .someProperty _ _ _ => "SomeProperty"
  | .value _ _ _ => "ValueDescription"
  | .thing _ => "ThingDescription"

/-! ## Measures -/

mutual

/-- How many conditions a description has. -/
def size : Description → Nat
  | .conjunction ds => sizeList ds
  | .disjunction ds => sizeList ds
  | .someProperty _ d _ => 1 + d.size
  | .category _ _ _ | .concept _ | .space _ | .value _ _ _ | .thing _ => 1

/-- How many conditions several descriptions have together. -/
def sizeList : List Description → Nat
  | [] => 0
  | d :: ds => d.size + sizeList ds

end

mutual

/-- How many properties lie one within the other. -/
def depth : Description → Nat
  | .conjunction ds => depthList ds
  | .disjunction ds => depthList ds
  | .someProperty _ d _ => 1 + d.depth
  | .category _ _ _ | .concept _ | .space _ | .value _ _ _ | .thing _ => 0

/-- The greatest depth of several descriptions. -/
def depthList : List Description → Nat
  | [] => 0
  | d :: ds => max d.depth (depthList ds)

end

/-! ## The text of a query -/

/-- A part of a query between double brackets. -/
def inBrackets (s : String) : String := "[[" ++ s ++ "]]"

/-- A part of a query between group marks. -/
def inGroup (s : String) : String := "<q>" ++ s ++ "</q>"

/-- A condition on categories. -/
def categoryText (categories : List Entity) (negated : Bool) : String :=
  let mark := if negated then "!" else ""
  let names := categories.map fun c => mark ++ c.text
  inBrackets (Namespace.lead Namespace.category ++ "||".intercalate names)

/-- What is joined by blanks: the texts that are not empty. -/
def joinGiven (parts : List String) : String := " ".intercalate (parts.filter (· ≠ ""))

/-- Where the text of a description stands. -/
inductive Setting where
  /-- On its own. -/
  | query
  /-- As the value of a property. -/
  | value
  /-- After the name of a property: as a further property of a chain, or as the value at its end. -/
  | chain
deriving DecidableEq

/-- A text where it stands. The value at the end of a chain follows two colons, and no value is
written as a plus. -/
def Setting.place (setting : Setting) (s : String) : String :=
  if setting = .chain then "::" ++ (if s = "" then "+" else s) else s

mutual

/-- The text of a description where it stands. -/
def textAt (setting : Setting) : Description → Except Failure String
  | .conjunction ds => do
    let s := joinGiven (← textsAt (if setting = .query then .query else .value) ds)
    return setting.place (if setting ≠ .query && ds.length > 1 then inGroup s else s)
  | .disjunction ds => do
    let parts ← textsAt (if setting = .query then .query else .value) ds
    return setting.place
      (if setting = .query then inGroup (" OR ".intercalate parts) else "||".intercalate parts)
  | .category categories _ negated => return setting.place (categoryText categories negated)
  | .concept c => return setting.place (inBrackets (Namespace.lead Namespace.concept ++ c.text))
  | .space n => return setting.place (inBrackets (Namespace.lead n ++ "+"))
  | .someProperty p d _ => do
    let s := p.label ++ (← textAt .chain d)
    return if setting = .chain then "." ++ s else inBrackets s
  | .value item comparator _ => do
    let s := comparator.lead ++ (← item.label)
    return setting.place (if setting = .query then inBrackets s else s)
  | .thing negated =>
    return setting.place (if setting = .query then "" else if negated then "!+" else "+")

/-- The texts of several descriptions. -/
def textsAt (setting : Setting) : List Description → Except Failure (List String)
  | [] => return []
  | d :: ds => do
    let s ← textAt setting d
    let rest ← textsAt setting ds
    return s :: rest

end

/-- The description as the text of a query. -/
def queryText (d : Description) : Except Failure String := d.textAt .query

/-- The description as the text of a value. -/
def valueText (d : Description) : Except Failure String := d.textAt .value

end Description

end FactIndex
