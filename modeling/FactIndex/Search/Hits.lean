import FactIndex.Fact.Catalog
import FactIndex.Json.Display
import FactIndex.Json.Number
import FactIndex.Slice

/-!
# Hits

What the search engine answers to a search: the documents that were found, and how many there are in
all. Answers are taken as they come, so that reading one can fail.

## Main definitions

* `Hits.list`, `Hits.total`: the documents of an answer, and their number.
* `Hits.number`, `Hits.fieldValues`: the numbers of documents, and the values of a field of them.
* `Hits.convert`: the entities that an answer stands for.
-/

namespace FactIndex.Hits

/-- A member of an object, which is the default if it is absent. Nothing else has members. -/
def memberOf (value : Json) (key : String) (default : Json) : Except Failure Json :=
  match value with
  | .obj ms => .ok ((Table.get? ms key).getD default)
  | _ => .error .noAttribute

/-- The part of an answer that is about documents. -/
def of (answer : Members) : Json := (Table.get? answer "hits").getD (.obj [])

/-- The documents of an answer. -/
def list (hits : Json) : Except Failure Json := memberOf hits "hits" (.arr [])

/-- The name of a document. -/
def nameOf : Json → Except Failure Json
  | .obj ms =>
    match Table.get? ms "_id" with
    | some name => .ok name
    | none => .error .noMember
  | _ => .error .badType

/-- The number that a document's name stands for, or else the name itself. -/
def numberOf (name : Json) : Except Failure Json :=
  match name.toWhole with
  | .ok n => .ok (.int n)
  | .error .badType => .ok name
  | .error .badValue => .ok name
  | .error e => .error e

/-- How many documents there are in all. -/
def total (hits : Json) : Except Failure Int := do
  match ← memberOf hits "total" (.int 0) with
  | .obj ms => ((Table.get? ms "value").getD (.int 0)).toWhole
  | value => if value.isGiven then value.toWhole else .ok 0

/-- How many documents there are in all, as the answer has it. -/
def totalShown (hits : Json) : Except Failure Json := do
  match ← memberOf hits "total" (.int 0) with
  | .obj ms => return (Table.get? ms "value").getD (.int 0)
  | value => return value

/-- The numbers of the documents of an answer. -/
def numbers (hits : Json) : Except Failure (List Json) := do
  (← (← list hits).elements).mapM fun hit => do numberOf (← nameOf hit)

/-- The group and the array that a field is made of. -/
def splitField (field : String) : String × String :=
  let (group, rest) := field.toList.span (· ≠ '.')
  (String.ofList group, String.ofList (rest.drop 1))

/-- Adds what is not there yet. -/
def addNew (found values : List Json) : List Json :=
  values.foldl (fun found v => if found.any v.same then found else found ++ [v]) found

/-- The values of a field of the documents of an answer, each once. -/
def fieldValues (hits : Json) (field : String) : Except Failure (List Json) := do
  let (group, array) := splitField field
  (← (← list hits).elements).foldlM (fun found hit => do
    let source ← memberOf hit "_source" (.obj [])
    let values ← memberOf (← memberOf source group (.obj [])) array (.arr [])
    return addNew found (match values with
      | .arr xs => xs
      | value => [value])) []

/-- The namespace of entities that are not known. -/
def unknownSpace : Int := -1

/-- The entity that the name of a document stands for. -/
def entity (c : Catalog) (name : Json) : Except Failure Entity := do
  let unknown : Entity := { title := "SEMINDEX:UNKNOWN:" ++ name.plainText, space := unknownSpace }
  match ← numberOf name with
  | .int n => return (c.entity? n).getD unknown
  | _ => return unknown

/-- What an answer amounts to. -/
structure Converted where
  results : List Entity
  /-- How long it took, how many documents there are, and the best score. -/
  info : Members
  /-- Whether there are more documents than were asked for. -/
  hasFurther : Bool

/-- The entities that an answer stands for, so many of them as were asked for. -/
def convert (c : Catalog) (answer : Members) (limit : Int) : Except Failure Converted := do
  let hits := of answer
  let items ← list hits
  let total ← totalShown hits
  let score ← memberOf hits "max_score" .null
  let items ← items.elements
  let info := [("took", (Table.get? answer "took").getD .null), ("total", total),
    ("max_score", score)]
  let results ← (front items limit).mapM fun hit => do entity c (← nameOf hit)
  return { results, info, hasFurther := decide ((items.length : Int) > limit) }

end FactIndex.Hits
