import FactIndex.Dispatch.Component
import FactIndex.Store.Plan
import FactIndex.Store.Retrieval
import FactIndex.Update.Generation
import FactIndex.Update.Recovery

/-!
# The store as a component

The store answers queries and keeps the indices in step with the entities. While the search engine is out
of reach another store may answer in its place.

## Main definitions

* `Store.interface`: the operations and their parameters.
* `Deployment.answer`: a query, answered by another store if need be.
* `Deployment.call`: a call by name.
-/

namespace FactIndex

namespace Store

/-- Queries as a kind of argument. -/
def queryModel : Model := ⟨"Query", fun j => Query.toJson <$> Query.read false j⟩

/-- Changes as a kind of argument. -/
def changeModel : Model := ⟨"ChangeDiff", fun j => Change.toJson <$> Change.read j⟩

/-- Entities as a kind of argument. -/
def entityModel : Model := ⟨"EntityRef", fun j => Entity.toJson <$> Entity.read j⟩

/-- The operations and their parameters. -/
def interface : Interface :=
  [("query", [⟨"query", .oneOf [.table, .record queryModel], none⟩]),
    ("replicate", [⟨"change_diff", .oneOf [.table, .record changeModel], none⟩]),
    ("create", [⟨"entity", .oneOf [.table, .record entityModel], none⟩]),
    ("delete", [⟨"ids", .listOf .integer, none⟩, ⟨"is_concept", .truth, some (.bool false)⟩]),
    ("setup", []), ("drop", []),
    ("rollover", [⟨"type", .text, none⟩, ⟨"version", .text, none⟩]),
    ("run_recovery_jobs", [⟨"max_count", .integer, some (.int 10)⟩]), ("close", [])]

end Store

namespace Deployment

variable {σ : Type}

/-- Lets the other store answer. -/
def answerElsewhere (result : QueryResult) (query : Argument) : Action σ QueryResult :=
  .make fun w =>
    let call : Call := ⟨"fallback.query", .single "type" (.str query.typeName)⟩
    (.ok result, { w with host := { w.host with network := w.host.network.record call } })

/-- The answer to a query, by this store. -/
def answerHere (d : Deployment σ) (query : Argument) : Action σ QueryResult := do
  d.execute (← .ofExcept (Query.read false query.value).toExcept)

/-- The answer to a query. Another store, if there is one and it may be used, answers while the search
engine is out of reach. -/
def answer (d : Deployment σ) (query : Argument) : Action σ QueryResult := do
  match d.fallback, d.settings.query.otherStore with
  | some result, true =>
    if !(← d.ping) then return ← answerElsewhere result query
    match ← Effect.attempt (d.answerHere query) with
    | .error (.unavailable _) => answerElsewhere result query
    | result => .ofExcept result
  | _, _ => d.answerHere query

/-- Closes the client of the search engine. -/
def close (d : Deployment σ) : Action σ Unit := do
  let _ ← d.demandRaw .close
  .make fun w => (.ok (), { w with isOpen := false })

/-- The client has to be open. A closed one cannot be opened again without an address. -/
def checkOpen : Action σ Unit :=
  .make fun w => (if w.isOpen then .ok () else .error StorePlan.noAddress, w)

/-- Runs an operation on arguments. -/
def run (d : Deployment σ) (name : String) (given : Arguments) : Action σ Json := do
  checkOpen
  let given ← .ofExcept (convertAll ((Table.get? Store.interface name).getD []) given)
  let need (parameter : String) : Action σ Json :=
    Argument.value <$> Effect.ofExcept (given.need parameter)
  match name with
  | "query" => QueryResult.toJson <$> do d.answer (← .ofExcept (given.need "query"))
  | "replicate" =>
    Json.bool <$> do d.safeReplicate (← .ofExcept (Change.read (← need "change_diff")).toExcept)
  | "create" => Json.bool <$> do d.create (← .ofExcept (Entity.read (← need "entity")).toExcept)
  | "delete" =>
    let isConcept := match Table.get? given "is_concept" with
      | some a => a.value
      | none => .bool false
    Json.bool <$> do d.delete (← need "ids") isConcept
  | "setup" => Query.textTable <$> d.setup
  | "drop" =>
    d.drop
    return .null
  | "rollover" =>
    let type := (← need "type").plainText
    d.checkIndex type
    Json.ofText? <$> do d.rollover type (← need "version").plainText
  | "run_recovery_jobs" =>
    let count := match Table.get? given "max_count" with
      | some a => a.value
      | none => .int 10
    return Json.ofTexts ((← d.runJobs count).map JobStatus.name)
  | _ =>
    d.close
    return .null

/-- Calls an operation by name. The answer comes with the context of the call. -/
def call (d : Deployment σ) (name : String) (given : Arguments) (context : Json) :
    Action σ (Json × Context) := do
  let (arguments, context) ← .ofExcept (Store.interface.start true name given context)
  let result ← d.run name arguments
  return (result, context)

end Deployment

end FactIndex
