import FactIndex.Digest.Structural
import FactIndex.Search.Clause
import FactIndex.Search.Hits
import FactIndex.Store.Connection

/-!
# Lookups

A condition that the search engine cannot nest is resolved by a search of its own. Its result is a list
of entity numbers: a short one becomes part of the outer query, a long one is stored as a document
that the outer query refers to. Both are remembered, so that the same condition is not searched twice.

Every lookup answers with a record of what it did.

## Main definitions

* `Lookup`: a search to be resolved, with the keys under which its result is kept.
* `Lookup.find`, `Lookup.keep`, `Lookup.resolve`: the list of numbers or the reference to it.
* `lookup`, `lookupChain`, `lookupConcept`, `lookupInverse`: the four kinds of lookups.
-/

namespace FactIndex

open FactIndex.Digest

/-- A search whose result is needed in another query. -/
structure Lookup where
  /-- The id of the document that holds a long result. -/
  id : String
  /-- The body of the search. -/
  body : Members
  /-- What the remembered result depends on besides the id. -/
  dependsOn : List String := []
  /-- The field whose values are the result, instead of the documents that were found. -/
  field : Option String := none
  /-- The number of results from which on they are stored. -/
  threshold : Int
  /-- The seconds for which the result is remembered. -/
  lifetime : Float
deriving DecidableEq

/-- A query together with the record of the lookup that it came from. -/
structure Resolved where
  clause : Json
  record : Members

/-- What a search for a lookup found: how many entity numbers there are, those that were asked for, and
the errors of a search that was refused. -/
structure Found where
  count : Int
  ids : List Json
  errors : List String
deriving DecidableEq

/-- The number of entity numbers, and the numbers themselves or a reference to them. -/
structure Materialized where
  count : Json
  numbers : Json
  /-- Further members of the record. -/
  record : Members

namespace Lookup

/-- What stands before the keys of remembered results. -/
def scope : String := "semindex:elastic:lookup"

/-- The key under which a result is remembered. -/
def key (l : Lookup) : Json :=
  let parts := [l.id, toString l.threshold] ++ l.dependsOn
  .str (scope ++ ":" ++ structuralHash (Json.ofTexts parts))

/-- The result that a remembered value stands for. -/
def ofRemembered (l : Lookup) (value : Json) : Except Failure Materialized :=
  match value.get? "count" with
  | none => .error .noMember
  | some count =>
    let record := [("count", count), ("is_from_cache", .single "id" (.str l.id))]
    match value.get? "ref", value.get? "ids" with
    | some reference, _ => .ok ⟨count, reference, record⟩
    | none, some ids => .ok ⟨count, ids, record⟩
    | none, none => .error .noMember

/-- The result of a search: how many there are, and the numbers. -/
def ofAnswer (l : Lookup) (answer : Members) : Except Failure (Int × List Json) := do
  let hits := Hits.of answer
  let total ← Hits.total hits
  match l.field with
  | none => return (total, ← Hits.numbers hits)
  | some field =>
    let values ← Hits.fieldValues hits field
    return (if values.isEmpty then 0 else total, values)

variable {σ : Type}

/-- Stores a list of numbers as a document, and refers to it. -/
def storeList (d : Deployment σ) (id : String) (ids : List Json) : Action σ Json := do
  let index := d.indexName IndexType.lookup
  d.storeDocument index id (.single "id" (.arr ids))
  d.refresh index
  return Clause.reference index id "id"

/-- Remembers a result. -/
def remember (d : Deployment σ) (l : Lookup) (count : Int) (name : String) (numbers : Json) :
    Action σ Unit :=
  onCache (d.cache.put .waiting l.key (.obj [("count", .int count), (name, numbers)])
    (.float l.lifetime))

/-- Searches for the result of a lookup. -/
def find (d : Deployment σ) (l : Lookup) : Action σ Found := do
  let (answer, errors) ← d.search (d.indexName IndexType.data) l.body
  let (count, ids) ← .ofExcept (l.ofAnswer answer)
  return ⟨count, ids, errors⟩

/-- Whether a result is so long that it is stored as a document. -/
def isStored (l : Lookup) (found : Found) : Bool := l.threshold ≤ found.count && found.ids ≠ []

/-- Remembers what was found, as it is or as a reference to a document. A search that was refused finds
nothing, and that is not remembered. -/
def keep (d : Deployment σ) (l : Lookup) (found : Found) : Action σ Materialized := do
  let record := (if found.errors.isEmpty then [] else [("errors", Json.ofTexts found.errors)]) ++
    [("count", .int found.count), ("is_from_cache", .bool false)]
  if l.isStored found then
    let reference ← storeList d l.id found.ids
    remember d l found.count "ref" reference
    return ⟨.int found.count, reference, record⟩
  if found.errors.isEmpty then remember d l found.count "ids" (.arr found.ids)
  return ⟨.int found.count, .arr found.ids, record⟩

/-- The result of a lookup, found by a search and remembered. -/
def materialize (d : Deployment σ) (l : Lookup) : Action σ Materialized := do
  l.keep d (← l.find d)

/-- The result of a lookup: remembered, or found by a search. -/
def resolve (d : Deployment σ) (l : Lookup) : Action σ Materialized := do
  match ← d.cached? l.key with
  | some value => if value = .null then materialize d l else .ofExcept (l.ofRemembered value)
  | none => materialize d l

end Lookup

namespace Deployment

variable {σ : Type}

/-- The query of a lookup. -/
def wrapped (params : Json) (constantScore : Bool) : Json :=
  let query := Clause.compoundAt "must" params
  if constantScore then Clause.constantScore query else query

/-- The body of a lookup. -/
def lookupBody (d : Deployment σ) (query : Json) (source : Json) : Members :=
  [("_source", source), ("query", query), ("size", .int d.settings.subquery.size)]

/-- The field has one of the numbers. -/
def hasNumber (d : Deployment σ) (field : String) (numbers : Json) : Json :=
  let clause := Clause.terms field numbers
  if d.settings.subquery.constantScore then Clause.constantScore clause else clause

/-- The clause and the record that a lookup amounts to. -/
def resolved (d : Deployment σ) (l : Lookup) (field name title : String) : Action σ Resolved := do
  let m ← l.resolve d
  return ⟨d.hasNumber field m.numbers,
    [(name, .str title), ("query", .obj l.body)] ++ m.record⟩

/-- The lookup of what some clauses select. -/
def plainLookup (d : Deployment σ) (key : String) (params : Json) : Lookup :=
  let body := d.lookupBody (wrapped params true) (.bool false)
  { id := "pre:" ++ structuralHash (.obj body), body, dependsOn := [key]
    threshold := d.settings.subquery.threshold
    lifetime := d.settings.subquery.lifetimeSeconds }

/-- The field has the number of an entity that some clauses select. -/
def lookup (d : Deployment σ) (key field : String) (params : Json) : Action σ Resolved :=
  d.resolved (d.plainLookup key params) field "predefined_lookup_query" key

/-- The lookup of a member of a chain of properties. -/
def chainLookup (d : Deployment σ) (params : Json) : Lookup :=
  let body := d.lookupBody (wrapped params d.settings.subquery.constantScore) (.bool false)
  { id := structuralHash (.obj body), body
    threshold := d.settings.subquery.threshold
    lifetime := d.settings.subquery.lifetimeSeconds }

/-- The field has the number of an entity that a member of a chain of properties selects. -/
def lookupChain (d : Deployment σ) (property : Property) (text field : String) (params : Json) :
    Action σ Resolved :=
  d.resolved (d.chainLookup params) field "lookup_query" (property.key ++ " → " ++ text)

/-- The lookup of the members of a concept. The id of the document depends on nothing but the number of
the concept, so that the document can be removed together with the concept. -/
def conceptLookup (d : Deployment σ) (number : Json) (fingerprint : String) (params : Json) :
    Lookup :=
  { id := plainHash number
    body := d.lookupBody (wrapped params d.settings.subquery.constantScore) (.bool false)
    dependsOn := [fingerprint]
    threshold := d.settings.subquery.conceptThreshold
    lifetime := d.settings.subquery.conceptLifetimeSeconds }

/-- The entity is a member of a concept. -/
def lookupConcept (d : Deployment σ) (concept : Entity) (number : Json)
    (description : Description) (params : Json) : Action σ Resolved := do
  let text ← .ofExcept description.queryText
  d.resolved (d.conceptLookup number description.fingerprint params) "_id"
    "concept_lookup_query" (concept.hash ++ " → " ++ text)

/-- Whether there is nothing to follow a property from. -/
def isNothing (params : Json) : Bool :=
  params == .arr [] || params == .null || params.same (.int 0)

/-- The lookup that follows a property from object to subject. -/
def inverseLookup (d : Deployment σ) (key field : String) (params : Json) : Lookup :=
  let query := Clause.constantScore (Clause.compound .must [Clause.terms "_id" params])
  { id := "in:" ++ structuralHash params
    body := d.lookupBody query (Json.ofTexts [field]), dependsOn := [key], field := some field
    threshold := d.settings.subquery.threshold
    lifetime := d.settings.subquery.lifetimeSeconds }

/-- The entity is the value of a field of some others, which are given by their numbers or by a
reference. -/
def lookupInverse (d : Deployment σ) (key field : String) (params : Json) : Action σ Resolved :=
  if isNothing params then
    return ⟨d.hasNumber "_id" (.arr []), [("inverse_lookup_query", .str key),
      ("query", .str "Failed with invalid or unmatchable ID")]⟩
  else d.resolved (d.inverseLookup key field params) "_id" "inverse_lookup_query" key

end Deployment

end FactIndex
