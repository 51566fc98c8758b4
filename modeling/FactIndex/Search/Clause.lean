import FactIndex.Failure
import FactIndex.Search.Field

/-!
# Clauses of search requests

A clause says which documents a search is after. Clauses are JSON, in the form the search engine
takes them.

## Main definitions

* `Occur`: how the members of a compound clause count.
* `Clause.term`, `Clause.terms`, `Clause.range` and the other makers, one for each kind of clause.
* `Clause.fieldFilter`: the entity numbers by which a clause restricts a field.
* `Clause.overHierarchy`: a clause that also holds for the subproperties of a property.
-/

namespace FactIndex

open FactIndex.Text

/-- How the members of a compound clause count. -/
inductive Occur where
  | must
  | should
  | mustNot
  | filter
deriving DecidableEq

/-- The key of the members in the compound clause. -/
def Occur.key : Occur → String
  | .must => "must"
  | .should => "should"
  | .mustNot => "must_not"
  | .filter => "filter"

/-- The key of a bound in a range clause. Only the comparators of ranges have one. -/
def Comparator.bound? : Comparator → Option String
  | .greater => some "gt"
  | .geq => some "gte"
  | .less => some "lt"
  | .leq => some "lte"
  | _ => none

namespace Clause

/-! ## Makers -/

/-- A value as a list of values. A list stands for itself. -/
def listed : Json → List Json
  | .arr xs => xs
  | value => [value]

/-- A compound clause under any key. -/
def compoundAt (key : String) (members : Json) : Json :=
  .single "bool" (.single key (.arr (listed members)))

/-- A compound clause. -/
def compound (occur : Occur) (members : List Json) : Json :=
  compoundAt occur.key (.arr members)

/-- The field has a value. -/
def hasField (field : String) : Json := .single "exists" (.single "field" (.str field))

/-- The field has exactly the value. -/
def term (field : String) (value : Json) : Json := .single "term" (.single field value)

/-- Several values, as a list or as a reference to a stored list. -/
def several : Json → Json
  | .arr xs => .arr xs
  | .obj ms => .obj ms
  | value => .arr [value]

/-- The field has one of the values. -/
def terms (field : String) (values : Json) : Json :=
  .single "terms" (.single field (several values))

/-- The words of the value occur in the field, or in one of several fields. -/
def words (field value : Json) (operator : String) : Json :=
  match field with
  | .str name =>
    .single "match" (.single name (.obj [("query", value), ("operator", .str operator)]))
  | fields =>
    .single "multi_match" (.obj [("fields", fields), ("query", value), ("operator", .str operator)])

/-- The words of the value occur in the field, one after the other. -/
def phrase (field : String) (value : Json) : Json :=
  .single "match_phrase" (.single field value)

/-- The fields satisfy a text in the query language of the search engine. -/
def queryString (fields value : Json) : Json :=
  .single "query_string" (.obj [("fields", .arr (listed fields)), ("query", value)])

/-- The field is on one side of the value. -/
def range (field : String) (value : Json) (comparator : Comparator) : Except Failure Json :=
  match comparator.bound? with
  | some bound => .ok (.single "range" (.single field (.single bound value)))
  | none => .error .noMember

/-- What the clause selects, without computing a score. -/
def constantScore (clause : Json) : Json := .single "constant_score" (.single "filter" clause)

/-- The field is a point in a box. -/
def boundingBox (field : String) (top left bottom right : Json) : Json :=
  .single "geo_bounding_box" (.single field (.obj [
    ("top_left", .obj [("lat", top), ("lon", left)]),
    ("bottom_right", .obj [("lat", bottom), ("lon", right)])]))

/-- A reference to the list that a document holds. -/
def reference (index id path : String) : Json :=
  .obj [("index", .str index), ("id", .str id), ("path", .str path)]

/-- What the clause selects, in random order. -/
def shuffled (clause : Json) : Json :=
  .single "function_score" (.obj [("query", clause), ("random_score", .obj []),
    ("boost_mode", .str "sum")])

/-- Every document. -/
def everything : Json := .single "match_all" (.obj [])

/-- No document. -/
def nothing : Json := terms "_id" (.arr [])

/-! ## Reading a clause -/

/-- The restriction that a list of findings amounts to: the first that is not empty. -/
def firstFound (findings : List (Except Failure Json)) : Except Failure Json :=
  match findings with
  | [] => .ok (.arr [])
  | finding :: rest =>
    match finding with
    | .ok found => if found = .arr [] then firstFound rest else .ok found
    | .error e => .error e

/-- The restriction that a `terms` clause puts on the field, if it names the field. -/
def namedIn (field : String) : Json → Except Failure (Option Json)
  | .obj ms => .ok (Table.get? ms field)
  | .arr xs => if xs.contains (.str field) then .error .badType else .ok none
  | .str s => if occurs field s then .error .badType else .ok none
  | _ => .error .badType

mutual

/-- The entity numbers, or the reference to a stored list of them, by which a clause restricts a
field. It is the empty list if the clause puts no such restriction on the field. -/
def fieldFilter (field : String) : Json → Except Failure Json
  | .arr xs => firstFound (fieldFilterEach field xs)
  | .obj ms => do
    match Table.get? ms "terms" with
    | some named =>
      if let some found ← namedIn field named then return found
    | none => pure ()
    match fieldFilterScored field ms with
    | some found => found
    | none => (fieldFilterCompound field ms).getD (.ok (.arr []))
  | _ => .ok (.arr [])

/-- The restrictions of several clauses. -/
def fieldFilterEach (field : String) : List Json → List (Except Failure Json)
  | [] => []
  | x :: xs => fieldFilter field x :: fieldFilterEach field xs

/-- The restriction by the clause that is used without a score. -/
def fieldFilterScored (field : String) : List (String × Json) → Option (Except Failure Json)
  | [] => none
  | (key, .obj inner) :: ms =>
    if key = "constant_score" then
      some ((fieldFilterInner field inner).getD (.error .noMember))
    else fieldFilterScored field ms
  | (key, _) :: ms =>
    if key = "constant_score" then some (.error .badType) else fieldFilterScored field ms

/-- The restriction by the clause under `filter`. -/
def fieldFilterInner (field : String) : List (String × Json) → Option (Except Failure Json)
  | [] => none
  | (key, value) :: ms =>
    if key = "filter" then some (fieldFilter field value) else fieldFilterInner field ms

/-- The restriction by the members of a compound clause. -/
def fieldFilterCompound (field : String) : List (String × Json) → Option (Except Failure Json)
  | [] => none
  | (key, .obj inner) :: ms =>
    if key = "bool" then some (firstFound (fieldFilterMembers field inner))
    else fieldFilterCompound field ms
  | (key, _) :: ms =>
    if key = "bool" then some (.error .noAttribute) else fieldFilterCompound field ms

/-- The restrictions of the values of several members. -/
def fieldFilterMembers (field : String) : List (String × Json) → List (Except Failure Json)
  | [] => []
  | (_, value) :: ms => fieldFilter field value :: fieldFilterMembers field ms

end

/-! ## Subproperties -/

/-- A text in which the old front is replaced by the new one. A text with another front stays. -/
def swapFront (old new : String) (s : String) : String :=
  match afterFront? old s with
  | some rest => new ++ rest
  | none => s

/-- A name of a field in which the front is replaced. -/
def swapName (old new : String) : Json → Json
  | .str s => .str (swapFront old new s)
  | value => value

mutual

/-- A clause in which the names of fields are given a new front. Names are keys and what stands
under `field` and `fields`; other values are left alone, whatever they look like. -/
def renameFields (old new : String) : Json → Json
  | .arr xs => .arr (renameEach old new xs)
  | .obj ms => .obj (Table.merge [] (renameMembers old new ms))
  | value => value

/-- Several clauses in which the names of fields are given a new front. -/
def renameEach (old new : String) : List Json → List Json
  | [] => []
  | x :: xs => renameFields old new x :: renameEach old new xs

/-- Members in which the names of fields are given a new front. -/
def renameMembers (old new : String) : List (String × Json) → List (String × Json)
  | [] => []
  | (key, value) :: ms =>
    let renamed :=
      if key = "field" then swapName old new value
      else if key = "fields" then renameNames old new value
      else renameFields old new value
    (swapFront old new key, renamed) :: renameMembers old new ms

/-- The names under `fields` with a new front. Anything but a list is treated as a clause. -/
def renameNames (old new : String) : Json → Json
  | .arr xs => .arr (xs.map (swapName old new))
  | .obj ms => .obj (Table.merge [] (renameMembers old new ms))
  | value => value

end

/-- A clause on a property that also holds for each of its subproperties, which are given by their
numbers. The copies differ from the clause in nothing but the names of fields. -/
def overHierarchy (clause : Json) (group : String) (subproperties : List Int) : Json :=
  if subproperties.isEmpty then clause
  else
    compound .should (clause :: subproperties.map fun n =>
      renameFields (group ++ ".") (Field.group n ++ ".") clause)

end Clause

end FactIndex
