import FactIndex.Description.Basic
import FactIndex.Fact.Catalog
import FactIndex.Compile.Condition
import FactIndex.Proofs.Search.Matching
import FactIndex.Slice

/-!
# What a description says of a document

Categories, namespaces and conditions on direct properties can be read off a document without asking for
any other one. Descriptions that are built from these alone have a meaning that does not depend on how
they are compiled.

## Main definitions

* `Catalog.reach`, `Catalog.numbersOf`: what a node stands for, and its numbers.
* `Description.isInline`: the descriptions with a meaning of this kind.
* `Description.describes`: their meaning.
* `Description.mentions`, `Description.times`: the numbered things and the times in a description.
-/

namespace FactIndex

open FactIndex.Calendar

namespace Catalog

/-- What counts as below an entity or a property. A depth says how many of those below it count, the
nearest ones first; without one all of the hierarchy does. -/
def lower (c : Catalog) (item : Numbered) (depth : Option Int) : List Numbered :=
  match depth with
  | some n => front (c.members item) n
  | none => c.members item

/-- An entity or a property together with what counts as below it. -/
def reach (c : Catalog) (item : Numbered) (depth : Option Int) : List Numbered :=
  item :: c.lower item depth

/-- The number that an entity or a property has already. -/
def numberOf? (c : Catalog) (item : Numbered) : Option Int := c.numbers.get? item.key

/-- The numbers of those that have one. -/
def numbersOf (c : Catalog) (items : List Numbered) : List Int := items.filterMap c.numberOf?

/-- The fields of one array in the groups of a property and of what counts as below it. -/
def fields (c : Catalog) (p : Property) (depth : Option Int) (array : String) : List String :=
  (c.numbersOf (c.reach (.property p) depth)).map fun n => Field.inGroup (Field.group n) array

/-- The field with the numbers of the categories of an entity. -/
def categoryField? (c : Catalog) : Option String :=
  (c.numberOf? (.property Property.instanceOf)).map fun n =>
    Field.inGroup (Field.group n) Field.numbers

/-- An entity or a property has a number already. -/
def Knows (c : Catalog) (item : Numbered) : Prop := ∃ n, c.numberOf? item = some n

instance (c : Catalog) (item : Numbered) : Decidable (c.Knows item) :=
  decidable_of_iff ((c.numberOf? item).isSome = true) Option.isSome_iff_exists

theorem numbersOf_cons {c : Catalog} {item : Numbered} {n : Int} (h : c.numberOf? item = some n)
    (items : List Numbered) : c.numbersOf (item :: items) = n :: c.numbersOf items :=
  List.filterMap_cons_some h

end Catalog

namespace Item

/-- The value that documents are compared with: a page by its number, anything else by the form in
which it is searched. -/
def asked? (c : Catalog) : Item → Option Json
  | .page e => (c.numberOf? (.entity e)).map .int
  | item => item.searchValue.toOption

/-- The array with the values of a property that compare with an item. -/
def arrayOf (p : Property) : Item → String
  | .page _ => Field.numbers
  | _ => Field.ofProperty p

/-- Whether an item and a comparator make a condition of the plain kind: numbers, truth values and
times by size, pages by equality. -/
def isPlainCondition (comparator : Comparator) : Item → Bool
  | .number _ | .boolean _ | .time _ => comparator = .eq || comparator.isRange
  | .page _ => comparator = .eq
  | .text _ | .uri _ | .coordinate _ _ | .area _ => false

/-- The entity that an item is. -/
def mentions : Item → List Numbered
  | .page e => [.entity e]
  | _ => []

/-- The time that an item is. -/
def times : Item → List Time
  | .time t => [t]
  | _ => []

end Item

namespace Description

/-! ## Meaning -/

mutual

/-- Whether a description is built from conditions that a document answers by itself. -/
def isInline : Description → Bool
  | .conjunction ds => !ds.isEmpty && areInline ds
  | .disjunction ds => !ds.isEmpty && areInline ds
  | .category categories _ _ => !categories.isEmpty
  | .space _ => true
  | .someProperty p (.thing _) _ => !p.inverse
  | .someProperty p (.value item comparator _) _ => !p.inverse && item.isPlainCondition comparator
  | _ => false

/-- Whether each of several descriptions is of that kind. -/
def areInline : List Description → Bool
  | [] => true
  | d :: ds => d.isInline && areInline ds

end

/-- A document belongs to a category, or to one that counts as below it. -/
def isMember (M : Matching) (c : Catalog) (doc : Indexed) (depth : Option Int) (e : Entity) : Bool :=
  (c.numbersOf (c.reach (.entity e) depth)).any fun n =>
    c.categoryField?.any fun field => M.hasValue doc field (.int n)

/-- A value of the property, or of one that counts as below it, compares with an item. -/
def hasComparable (M : Matching) (c : Catalog) (doc : Indexed) (p : Property) (depth : Option Int)
    (item : Item) (comparator : Comparator) : Bool :=
  (c.fields p depth (item.arrayOf p)).any fun field =>
    (doc field).any fun v => (item.asked? c).any (M.compares comparator v)

/-- The property, or one that counts as below it, has a value. -/
def hasProperty (c : Catalog) (doc : Indexed) (p : Property) (depth : Option Int) : Bool :=
  (c.fields p depth (if p.isPage then Field.numbers else Field.ofProperty p)).any fun field =>
    !(doc field).isEmpty

mutual

/-- Whether a description holds of a document. A node without a depth of its own takes that of the
settings. -/
def describes (M : Matching) (c : Catalog) (q : QuerySettings) (doc : Indexed) : Description → Bool
  | .conjunction ds => eachDescribes M c q doc ds
  | .disjunction ds => someDescribes M c q doc ds
  | .category categories depth negated =>
    negated ^^ categories.any (isMember M c doc (depth.or q.depth))
  | .space n => M.hasValue doc "subject.namespace" (.int n)
  | .someProperty p (.thing negated) depth => negated ^^ hasProperty c doc p (depth.or q.depth)
  | .someProperty p (.value item comparator _) depth =>
    hasComparable M c doc p (depth.or q.depth) item comparator
  | _ => false

/-- Whether each of several descriptions holds of a document. -/
def eachDescribes (M : Matching) (c : Catalog) (q : QuerySettings) (doc : Indexed) :
    List Description → Bool
  | [] => true
  | d :: ds => d.describes M c q doc && eachDescribes M c q doc ds

/-- Whether one of several descriptions holds of a document. -/
def someDescribes (M : Matching) (c : Catalog) (q : QuerySettings) (doc : Indexed) :
    List Description → Bool
  | [] => false
  | d :: ds => d.describes M c q doc || someDescribes M c q doc ds

end

/-! ## What is named in a description -/

mutual

/-- The entities and properties whose numbers the meaning of a description rests on. -/
def mentions (c : Catalog) (q : QuerySettings) : Description → List Numbered
  | .conjunction ds => allMentions c q ds
  | .disjunction ds => allMentions c q ds
  | .category categories depth _ =>
    .property Property.instanceOf ::
      categories.flatMap fun e => c.reach (.entity e) (depth.or q.depth)
  | .someProperty p (.value item _ _) depth =>
    item.mentions ++ c.reach (.property p) (depth.or q.depth)
  | .someProperty p _ depth => c.reach (.property p) (depth.or q.depth)
  | _ => []

/-- The entities and properties in several descriptions. -/
def allMentions (c : Catalog) (q : QuerySettings) : List Description → List Numbered
  | [] => []
  | d :: ds => d.mentions c q ++ allMentions c q ds

end

mutual

/-- The times in a description. -/
def times : Description → List Time
  | .conjunction ds => allTimes ds
  | .disjunction ds => allTimes ds
  | .someProperty _ inner _ => inner.times
  | .value item _ _ => item.times
  | _ => []

/-- The times in several descriptions. -/
def allTimes : List Description → List Time
  | [] => []
  | d :: ds => d.times ++ allTimes ds

end

/-- A time has what is asked of it: a day number, and a label where visited nodes are recorded. -/
def IsUsable (q : QuerySettings) (t : Time) : Prop :=
  (∃ x, TimeOf.dayNumber t = .ok x) ∧ (q.nodeLog = true → ∃ s, Time.label t = .ok s)

end Description

end FactIndex
