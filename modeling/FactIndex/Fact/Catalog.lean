import FactIndex.Fact.Property
import FactIndex.Fact.Entity

/-!
# The catalog

Documents and fields are named by numbers. The catalog knows the number of every entity and
property, which entities and properties lie below another one, and the stored queries of concepts.
What has no number yet is given the next one when it is first asked for.

## Main definitions

* `Numbered`: what has a number.
* `Catalog`: the tables.
* `Catalog.number`: the number of an entity or a property, together with the catalog that knows it.
* `Catalog.entity?`, `Catalog.members`, `Catalog.findProperty`, `Catalog.query?`: the other questions.
-/

namespace FactIndex

open FactIndex.Text

/-- What has a number. -/
inductive Numbered where
  | entity (entity : Entity)
  | property (property : Property)
deriving DecidableEq

/-- What the catalog tells numbered things apart by. -/
inductive CatalogKey where
  | entity (hash : String)
  | property (key : String)
deriving DecidableEq

/-- The key of an entity is its hash. A property and its inverse have the same key. -/
def Numbered.key : Numbered → CatalogKey
  | .entity e => .entity e.hash
  | .property p => .property p.key

/-- The tables of numbers, entities, properties, hierarchies and concepts. -/
structure Catalog where
  /-- The number that is given next. -/
  next : Int
  numbers : Table CatalogKey Int := []
  entities : Table Int Entity := []
  properties : Table String Property := []
  hierarchy : Table CatalogKey (List Numbered) := []
  /-- The stored query of each concept, by hash. -/
  concepts : Table String String := []
deriving DecidableEq

namespace Catalog

/-- The given number, or the next one. -/
def takeNumber (c : Catalog) : Option Int → Int × Catalog
  | some n => (n, c)
  | none => (c.next, { c with next := c.next + 1 })

/-- Adds an entity. One that is known keeps its number unless another one is given. -/
def addEntity (c : Catalog) (e : Entity) (number : Option Int := none) : Int × Catalog :=
  match number, c.numbers.get? (.entity e.hash) with
  | none, some n => (n, c)
  | _, _ =>
    let (n, c) := c.takeNumber number
    (n, { c with
      numbers := c.numbers.put (.entity e.hash) n
      entities := c.entities.put n e })

/-- Adds a property. One that is known keeps its number unless another one is given. -/
def addProperty (c : Catalog) (p : Property) (number : Option Int := none) : Int × Catalog :=
  let c := { c with properties := c.properties.put p.key p.direct }
  match number, c.numbers.get? (.property p.key) with
  | none, some n => (n, c)
  | _, _ =>
    let (n, c) := c.takeNumber number
    (n, { c with numbers := c.numbers.put (.property p.key) n })

/-- Adds an entity or a property. -/
def add (c : Catalog) (item : Numbered) (number : Option Int := none) : Int × Catalog :=
  match item with
  | .entity e => c.addEntity e number
  | .property p => c.addProperty p number

/-- Sets what lies below an entity or a property, ordered by distance. -/
def addHierarchy (c : Catalog) (item : Numbered) (members : List Numbered) : Catalog :=
  { c with hierarchy := c.hierarchy.put item.key members }

/-- Sets the stored query of a concept, and adds the concept. -/
def addConcept (c : Catalog) (concept : Entity) (query : String) : Catalog :=
  ({ c with concepts := c.concepts.put concept.hash query }.addEntity concept).2

/-- The number of an entity or a property. What is not known is added. -/
def number (c : Catalog) (item : Numbered) : Int × Catalog :=
  match c.numbers.get? item.key with
  | some n => (n, c)
  | none => c.add item

/-- The entity with a number. -/
def entity? (c : Catalog) (n : Int) : Option Entity := c.entities.get? n

/-- What lies below an entity or a property. -/
def members (c : Catalog) (item : Numbered) : List Numbered :=
  (c.hierarchy.get? item.key).getD []

/-- The stored query of a concept. -/
def query? (c : Catalog) (concept : Entity) : Option String := c.concepts.get? concept.hash

/-- The property with the given name. A hyphen in front makes it inverse, and a property that is not
known has entities as values. -/
def findProperty (c : Catalog) (label : String) : Property :=
  let name := replaceChar ' ' '_' (trim label)
  let key := String.ofList (name.toList.dropWhile (· = '-'))
  let found := (c.properties.get? key).getD { key := key }
  { found with inverse := name.toList.head? = some '-' }

theorem number_of_known (c : Catalog) (item : Numbered) {n : Int}
    (h : c.numbers.get? item.key = some n) : c.number item = (n, c) := by
  simp [number, h]

end Catalog

end FactIndex
