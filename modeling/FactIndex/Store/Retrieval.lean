import FactIndex.Compile.Node
import FactIndex.Search.Hits
import FactIndex.Store.Sorting

/-!
# Retrieval

A query is answered in up to three steps: the sort keys are looked up, the description is compiled, and
the search engine is asked. What was asked is part of the answer.

## Main definitions

* `Deployment.prepare`: the search that a query amounts to.
* `Deployment.execute`: the answer to a query.
-/

namespace FactIndex

/-- A search, with all that has to be said about it. -/
structure Search where
  index : String
  body : Members
  query : Json
  /-- What was found to be wrong with the query. -/
  errors : List Members
  /-- The records of the lookups, with that of the search at the end. -/
  records : List Json
  /-- The query in words, its order and its measures. -/
  summary : Members
  /-- The nodes that were visited, if they are recorded. -/
  nodes : List Members

/-- An error of which only the text is known. -/
def errorText (text : String) : Members := [("message", .str text)]

namespace Search

/-- The diagnostics of a search, with what was found out in the end. -/
def report (s : Search) (summary : Members) (records : List Json) (info : Members) : Members :=
  [("semindex", .obj (s.summary ++ summary)), ("elastic", .arr (s.records ++ records)),
    ("info", .obj info)]

end Search

namespace Deployment

variable {σ : Type}

/-- The body of the search for a query. One result more than wanted shows whether there are more. -/
def searchBody (d : Deployment σ) (q : Query) (s : Sorting) (clause : Json) : Members :=
  [("_source", .bool false), ("from", .int q.offset), ("size", .int (q.limit + 1)),
    ("query", clause)] ++
    (if s.isRandom || s.orders.isEmpty then [] else [("sort", s.toJson)]) ++
    (if d.settings.query.profile then [("profile", .bool true)] else [])

/-- The search that a query amounts to. -/
def prepare (d : Deployment σ) (q : Query) : Action σ Search := do
  let s ← d.sorting q.sortKeys q.relevance
  let (clause, progress) ← d.searchFor q.description s.constantScore s.required
  let query := if s.isRandom then Clause.shuffled clause else clause
  let body := d.searchBody q s query
  let index := d.indexName IndexType.data
  let text ← .ofExcept q.description.queryText
  return {
    index, body, query
    errors := q.errors.map errorText ++ progress.defects.map Defect.toMembers
    records := progress.records.map Json.obj ++
      [.obj [("index", .str index), ("body", .obj body)]]
    summary := [("query", .str text), ("sort", Query.textTable q.sortKeys),
      ("metrics", .obj [("query_size", .int q.description.size),
        ("query_depth", .int q.description.depth)])]
    nodes := progress.nodes }

/-- What would be asked of the search engine, and what it makes of it. -/
def trace (d : Deployment σ) (s : Search) : Action σ QueryResult := do
  let verdict ← d.validate s.index s.query
  let log := if s.nodes.isEmpty then [] else [("description_log", .arr (s.nodes.map Json.obj))]
  let report := s.report log [.obj verdict] []
  return { errors := s.errors, trace := some report, info := report }

/-- How many results there are. -/
def countResults (d : Deployment σ) (s : Search) : Action σ QueryResult := do
  let (count, errors) ← d.count s.index s.query
  return { count := some count, errors := s.errors ++ errors.map errorText
           info := s.report [] [] [("count", .int count)] }

/-- The results themselves. -/
def fetchResults (d : Deployment σ) (q : Query) (s : Search) : Action σ QueryResult := do
  let (answer, errors) ← d.search s.index s.body
  let found ← .ofExcept (Hits.convert (← catalog) answer q.limit)
  return { results := found.results, hasFurther := found.hasFurther
           errors := s.errors ++ errors.map errorText, info := s.report [] [] found.info }

/-- Whether a description puts no condition on entities at all. -/
def isThing : Description → Bool
  | .thing _ => true
  | _ => false

/-- The answer to a query. A query that is empty because of its errors is not run, and nothing is asked
for without a positive limit. -/
def execute (d : Deployment σ) (q : Query) : Action σ QueryResult := do
  if isThing q.description ∧ q.mode ≠ .debug ∧ q.errors ≠ [] then
    return { errors := q.errors.map errorText }
  if q.mode = .none ∨ q.limit < 1 then return { hasFurther := true }
  let s ← d.prepare q
  match q.mode with
  | .debug => d.trace s
  | .count => d.countResults s
  | .instances | .none => d.fetchResults q s

end Deployment

end FactIndex
