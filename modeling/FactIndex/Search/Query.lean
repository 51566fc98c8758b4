import FactIndex.Description.Json

/-!
# Queries and their results

## Main definitions

* `Mode`: what is to be found out.
* `Query`: a description with the order and the number of the results wanted.
* `QueryResult`: the answer.
-/

namespace FactIndex

open FactIndex.Schema

/-- What a query is to find out. -/
inductive Mode where
  /-- Which entities there are. -/
  | instances
  /-- How many there are. -/
  | count
  /-- What would be asked of the search engine. -/
  | debug
  /-- Nothing. -/
  | none
deriving DecidableEq

namespace Mode

/-- The word for a mode. -/
def name : Mode → String
  | .instances => "instance"
  | .count => "count"
  | .debug => "debug"
  | .none => "none"

/-- Reads the word for a mode. -/
def read : Json → Checked Mode :=
  oneOf .enumeration ([.instances, .count, .debug, .none].map fun m => (m.name, m))

end Mode

/-- A query. -/
structure Query where
  description : Description
  /-- Labels of properties with the order by each, the first being the most important. -/
  sortKeys : Table String String := []
  /-- The order by score, which takes the place of all others. -/
  relevance : Option String := none
  limit : Int := 50
  offset : Int := 0
  mode : Mode := .instances
  /-- What was found to be wrong before. -/
  errors : List String := []

namespace Query

/-- The JSON form of an ordered table of texts. -/
def textTable (t : Table String String) : Json := .obj (t.map fun e => (e.1, .str e.2))

/-- The JSON form. -/
def toJson (q : Query) : Json :=
  .obj [("description", q.description.toJson), ("sort_keys", textTable q.sortKeys),
    ("relevance_order", Json.ofText? q.relevance), ("limit", .int q.limit),
    ("offset", .int q.offset), ("mode", .str q.mode.name), ("errors", Json.ofTexts q.errors)]

/-- Reads the JSON form. -/
def read (fromText : Bool) : Json → Checked Query := record fun ms =>
  Query.mk <$> required ms "description" (Description.read fromText) <*>
    withDefault ms "sort_keys" [] (dictOf text) <*>
    withDefault ms "relevance_order" none (optional text) <*>
    withDefault ms "limit" 50 integer <*>
    withDefault ms "offset" 0 integer <*>
    withDefault ms "mode" .instances Mode.read <*>
    withDefault ms "errors" [] (listOf text)

end Query

/-- The answer to a query. -/
structure QueryResult where
  results : List Entity := []
  count : Option Int := none
  /-- Whether there are more results than were asked for. -/
  hasFurther : Bool := false
  errors : List Members := []
  trace : Option Members := none
  info : Members := []
deriving DecidableEq

namespace QueryResult

/-- The JSON form. -/
def toJson (r : QueryResult) : Json :=
  .obj [("results", .arr (r.results.map Entity.toJson)), ("count", Json.ofInt? r.count),
    ("has_further_results", .bool r.hasFurther), ("errors", .arr (r.errors.map Json.obj)),
    ("debug", (r.trace.map Json.obj).getD .null), ("query_info", .obj r.info)]

/-- Reads the JSON form. -/
def read : Json → Checked QueryResult := record fun ms =>
  QueryResult.mk <$> withDefault ms "results" [] (listOf Entity.read) <*>
    withDefault ms "count" none (optional integer) <*>
    withDefault ms "has_further_results" false truth <*>
    withDefault ms "errors" [] (listOf members) <*>
    withDefault ms "debug" none (optional members) <*>
    withDefault ms "query_info" [] members

end QueryResult

end FactIndex
