import FactIndex.Index.Body
import FactIndex.Store.World

/-!
# The connection to the search engine

The connection knows what the indices are called. There is one for data and one for lists of entity
numbers, each in two generations behind an alias. While an index is being rebuilt the cache holds a
lock, which names the generation that is being built.

An engine that is out of reach makes an operation fail as unavailable; a refused search is no failure
but an answer with an error.

## Main definitions

* `IndexType`: the words for the two kinds of indices.
* `indexName`, `versionName`, `writeIndex`: what the indices are called, and which one is written to.
* `lockOf`, `isLocked`, `setLock`, `releaseLock`: the lock.
* `ping`, `search`, `count`, `validate`, `storeDocument`, `refresh`, `bulk`: requests.
* `indexExists`, `aliasExists`, `aliasTargets`, `createIndex`, `deleteIndex`, `updateAliases`: requests
  about indices.
-/

namespace FactIndex

namespace IndexType

/-- The index of documents. -/
def data : String := "data"

/-- The index of lists of entity numbers. -/
def lookup : String := "lookup"

/-- The two generations of an index. -/
def versions : List String := ["v1", "v2"]

end IndexType

namespace Deployment

variable {σ : Type}

/-! ## Names -/

/-- The alias of an index. -/
def indexName (d : Deployment σ) (type : String) : String := d.settings.index.stem ++ "-" ++ type

/-- The name of a generation of an index. -/
def versionName (d : Deployment σ) (type version : String) : String :=
  d.indexName type ++ "-" ++ version

/-- The body that an index is created with. -/
def indexBody (d : Deployment σ) (type : String) : Members :=
  if type = IndexType.lookup then Body.lookup d.settings.index else Body.data d.settings.index

/-! ## The lock -/

/-- The key of the lock. -/
def lockKey (d : Deployment σ) (type : String) : Json := .str ("lock:" ++ d.indexName type)

/-- Whether an index is being rebuilt. -/
def isLocked (d : Deployment σ) (type : String) : Action σ Bool :=
  onCache (d.cache.has .waiting (d.lockKey type))

/-- What is under a key of the cache, if there is anything. -/
def cached? (d : Deployment σ) (key : Json) : Action σ (Option Json) := do
  match ← Effect.attempt (onCache (d.cache.get .waiting key)) with
  | .ok value => return some value
  | .error (.notFound _) => return none
  | .error e => throw e

/-- The generation that is being built, or nothing. -/
def lockOf (d : Deployment σ) (type : String) : Action σ Json := do
  return (← d.cached? (d.lockKey type)).getD .null

/-- Locks an index while a generation is being built. -/
def setLock (d : Deployment σ) (type : String) (version : Json) : Action σ Unit :=
  onCache (d.cache.put .waiting (d.lockKey type) version)

/-- Takes the lock away, if there is one. -/
def releaseLock (d : Deployment σ) (type : String) : Action σ Unit := do
  match ← Effect.attempt (onCache (d.cache.delete .waiting (d.lockKey type))) with
  | .ok () => return ()
  | .error (.notFound _) => return ()
  | .error e => throw e

/-- The index that is written to: the generation that is being built, or else the alias. -/
def writeIndex (d : Deployment σ) (type : String) : Action σ String := do
  let version ← d.lockOf type
  return if version.isGiven then d.versionName type version.plainText else d.indexName type

/-! ## Requests -/

/-- What an error of the client amounts to where an unreachable engine is expected. -/
def asFailure : ClientError → Failure
  | .refused status error reason => .client (.refused status error reason)
  | e => .unavailable e.message

/-- The answer to a request. Every error is a failure. -/
def demand (d : Deployment σ) (r : Request) : Action σ Json := do
  match ← ask d r with
  | .ok answer => return answer
  | .error e => throw (asFailure e)

/-- The answer to a request. Errors of the client are handed on as they are. -/
def demandRaw (d : Deployment σ) (r : Request) : Action σ Json := do
  match ← ask d r with
  | .ok answer => return answer
  | .error e => throw (.client e)

/-- Whether the engine is in reach. -/
def ping (d : Deployment σ) : Action σ Bool := do
  match ← ask d .ping with
  | .ok answer => return answer.isGiven
  | .error (.refused status error reason) => throw (.client (.refused status error reason))
  | .error _ => return false

/-- The name under which a member of the body of a search is sent. -/
def optionName (name : String) : String :=
  if name = "_source" then "source" else if name = "from" then "from_" else name

/-- The answer to a search, and the errors of a search that was refused. -/
def search (d : Deployment σ) (index : String) (body : Members) :
    Action σ (Members × List String) := do
  match ← ask d (.search index (body.map fun m => (optionName m.1, m.2))) with
  | .ok answer => return (← .ofExcept answer.paired, [])
  | .error (.refused status error reason) =>
    return ([], [(ClientError.refused status error reason).message])
  | .error e => throw (asFailure e)

/-- The number of documents, and the errors of a request that was refused. -/
def count (d : Deployment σ) (index : String) (query : Json) : Action σ (Int × List String) := do
  match ← ask d (.count index query) with
  | .ok answer =>
    let ms ← .ofExcept answer.paired
    return (← .ofExcept ((Table.get? ms "count").getD (.int 0)).toWhole, [])
  | .error (.refused status error reason) =>
    return (0, [(ClientError.refused status error reason).message])
  | .error e => throw (asFailure e)

/-- What the engine makes of a query. -/
def validate (d : Deployment σ) (index : String) (query : Json) : Action σ Members := do
  match ← ask d (.validate index query) with
  | .ok answer => .ofExcept answer.paired
  | .error (.refused status error reason) =>
    return [("valid", .bool false),
      ("error", .str (ClientError.refused status error reason).message)]
  | .error e => throw (asFailure e)

/-- Stores a document. -/
def storeDocument (d : Deployment σ) (index id : String) (document : Json) : Action σ Unit := do
  let _ ← d.demand (.store index id document)

/-- Makes what was stored visible to searches. -/
def refresh (d : Deployment σ) (index : String) : Action σ Unit := do
  let _ ← d.demand (.refresh index)

/-- Does several writes. Without any no request is sent. -/
def bulk (d : Deployment σ) (operations : List Json) : Action σ Members := do
  if operations.isEmpty then return [("errors", .bool false), ("items", .arr [])]
  let answer ← d.demand (.bulk operations)
  .ofExcept answer.paired

/-! ## Indices -/

/-- Whether there is an index or an alias of the name. -/
def indexExists (d : Deployment σ) (name : String) : Action σ Bool :=
  Json.isGiven <$> d.demandRaw (.hasIndex name)

/-- Whether there is an alias of the name. -/
def aliasExists (d : Deployment σ) (name : String) : Action σ Bool :=
  Json.isGiven <$> d.demandRaw (.hasAlias name)

/-- The targets of an alias, in order. -/
def aliasTargets (d : Deployment σ) (name : String) : Action σ (List String) := do
  if !(← d.aliasExists name) then return []
  let answer ← d.demandRaw (.aliasTargets name)
  return (Table.keys (← .ofExcept answer.paired)).mergeSort (· ≤ ·)

/-- Whether an error of the client is of a kind. -/
def isKind (e : ClientError) (kind : String) : Bool :=
  match e with
  | .refused _ error _ => error == .str kind
  | _ => false

/-- Sends a request about an index. If it is refused for the given reason, the answer is no. -/
def tryIndex (d : Deployment σ) (r : Request) (kind : String) : Action σ Bool := do
  match ← ask d r with
  | .ok _ => return true
  | .error e => if isKind e kind then return false else throw (.client e)

/-- Creates an index. The answer is no if it was there already. -/
def createIndex (d : Deployment σ) (name type : String) : Action σ Bool :=
  d.tryIndex (.createIndex name (d.indexBody type)) "resource_already_exists_exception"

/-- Deletes an index. The answer is no if it was not there. -/
def deleteIndex (d : Deployment σ) (name : String) : Action σ Bool :=
  d.tryIndex (.deleteIndex name) "index_not_found_exception"

/-- Changes aliases. -/
def updateAliases (d : Deployment σ) (actions : List Json) : Action σ Unit := do
  let _ ← d.demandRaw (.updateAliases actions)

/-- Fails if an index has not been set up. -/
def checkIndex (d : Deployment σ) (type : String) : Action σ Unit := do
  let name := d.indexName type
  if !(← d.aliasExists name) then
    throw (.configuration ("Index alias " ++ name ++ " is missing, run setup or rebuild"))

end Deployment

end FactIndex
