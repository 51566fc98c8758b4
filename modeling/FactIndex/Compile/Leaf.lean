import FactIndex.Compile.Condition
import FactIndex.Compile.Progress

/-!
# The leaves of a description

Categories and conditions are compiled without regard to other nodes. What they need of the world is
the numbers of entities and properties, the members of hierarchies, and lookups for properties that are
followed from object to subject.

## Main definitions

* `Deployment.below`: the numbers of what lies below an entity or a property.
* `Deployment.categoryClause`: the condition on categories.
* `Deployment.entityClause`: a condition that stands on its own.
* `Deployment.propertyCondition`: a condition on the values of a property.
-/

namespace FactIndex

open FactIndex.Text

namespace Deployment

variable {σ : Type}

/-- The numbers of what lies below an entity or a property, the nearest ones first. A depth says how
many of them count. -/
def below (item : Numbered) (depth : Option Int) : Action σ (List Int) := do
  let members := (← catalog).members item
  (match depth with
    | some n => front members n
    | none => members).mapM numberOf

/-- The depth that holds for a node. -/
def depthOf (d : Deployment σ) (depth : Option Int) : Option Int := depth.or d.settings.query.depth

/-! ## Categories -/

/-- The field has a number, or one of those below it. -/
def memberClause (field : String) (number : Int) (lower : List Int) : Json :=
  let clause := Clause.term field (.int number)
  if lower.isEmpty then clause
  else Clause.compound .should [clause, Clause.terms field (.arr (lower.map Json.int))]

/-- The condition on one category. -/
def oneCategory (d : Deployment σ) (field : String) (depth : Option Int) (member : Int × Entity) :
    Action σ Json := do
  return memberClause field member.1 (← below (.entity member.2) (d.depthOf depth))

/-- The condition on categories, which are taken in the order of their numbers. -/
def categoryClause (d : Deployment σ) (isMember : Bool) (categories : List Entity)
    (depth : Option Int) (negated : Bool) : Action σ Json := do
  let field := Field.inGroup (Field.group (← numberOf (.property Property.instanceOf))) Field.numbers
  let numbered ← categories.mapM fun c => do return (← numberOf (.entity c), c)
  let clauses ← (numbered.mergeSort fun a b => a.1 ≤ b.1).mapM (d.oneCategory field depth)
  let clause := Clause.compound (if isMember && categories.length ≤ 1 then .must else .should) clauses
  return if negated then Clause.compound .mustNot [clause] else clause

/-! ## Conditions that stand on their own -/

/-- Where a condition looks: the group of a property with those below it, and the field. -/
structure Site where
  group : Option (String × List Int)
  field : String

/-- The sort key of the entity itself. -/
def ownSite : Site := ⟨none, "subject.sortkey"⟩

/-- Where a condition that names a property looks. Such a property has to be direct. -/
def namedSite (condition : Description) (p : Property) : Action σ Site := do
  let group := Field.group (← numberOf (.property p))
  if p.inverse then
    throw (.internal ("Value description with an inverse property: " ++ group ++ ", " ++
      (← .ofExcept condition.queryText)))
  return ⟨some (group, ← below (.property p) none), Field.inGroup group (Field.ofProperty p)⟩

/-- The field and the value of a condition. Pages are compared by their numbers. -/
def siteValue (site : Site) (item : Item) (c : Comparator) : Action σ (String × Json) := do
  match item with
  | .page e =>
    if c.isEquality && !Condition.isNoPart item then
      let field := match site.group with
        | none => "_id"
        | some (group, _) => Field.inGroup group Field.numbers
      return (field, .int (← numberOf (.entity e)))
    else return (site.field, .str e.sortText)
  | item => return (site.field, ← .ofExcept item.searchValue)

/-- The clause where it stands: negated, as a member of another one, or on its own. -/
def placed (isMember negated isFilter : Bool) (clause : Json) : Json :=
  if negated then Clause.compound .mustNot [clause]
  else if isMember then clause
  else Clause.compound (if isFilter then .filter else .must) [clause]

/-- A condition that stands on its own. -/
def entityClause (d : Deployment σ) (isMember : Bool) (item : Item) (comparator : Comparator)
    (property : Option Property) : Compiling σ Json := do
  let c := comparator.normal
  let condition := Description.value item comparator property
  let site ← .act (match property with
    | none => return ownSite
    | some p => namedSite condition p)
  let (field, value) ← .act (siteValue site item c)
  match item, site.group with
  | .area _, none =>
    .report (.lonelyArea (← .ofExcept condition.queryText))
    return Clause.nothing
  | _, group =>
    let (clause, isFilter) ← .ofExcept (Condition.ofEntity d.settings.query field item c value)
    let clause := match group with
      | some (name, lower) => Clause.overHierarchy clause name lower
      | none => clause
    return placed isMember c.isNegated isFilter clause

/-! ## Conditions on the values of a property -/

/-- The array and the value of a condition on a property. Pages are compared by their numbers. -/
def arrayValue (array : String) (item : Item) (c : Comparator) : Action σ (String × Json) := do
  match item with
  | .page e =>
    if c.isEquality then return (Field.numbers, .int (← numberOf (.entity e)))
    else return (array, .str e.sortText)
  | .uri s => return (array, .str (percentDecode s))
  | item => return (array, ← .ofExcept item.searchValue)

/-- How a lookup against the direction of a property is called. -/
def inverseName (p : Property) (text : String) : String := p.key ++ " ← " ++ text

/-- The entities that a property, followed from object to subject, leads to from the values with a
condition. Without equality the values have to be found first. -/
def inverseClause (d : Deployment σ) (p : Property) (group text : String) (c : Comparator)
    (value clause : Json) : Compiling σ Json := do
  let field := Field.inGroup group Field.numbers
  if c.isEquality then .lookUp (d.lookupInverse (inverseName p text) field value)
  else
    let found ← .lookUp (d.lookup text "_id" clause)
    let objects ← .ofExcept (Clause.fieldFilter "_id" found)
    .lookUp (d.lookupInverse (inverseName p text) field objects)

/-- The condition on the values of a property, whose group is given. -/
def propertyCondition (d : Deployment σ) (p : Property) (group : String) (item : Item)
    (comparator : Comparator) (property : Option Property) : Compiling σ Condition.Matched := do
  let c := comparator.normal
  let (array, value) ← .act (arrayValue (Field.ofProperty p) item c)
  let m ← .ofExcept (Condition.ofProperty d.settings.query d.settings.writer.normalKeywords
    p.valueType group array item c value)
  if !p.inverse then return m
  let text ← .ofExcept (Description.value item comparator property).queryText
  return { m with clause := ← d.inverseClause p group text c m.value m.clause }

end Deployment

end FactIndex
