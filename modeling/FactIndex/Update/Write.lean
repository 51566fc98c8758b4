import FactIndex.Digest.Structural
import FactIndex.Json.Number
import FactIndex.Store.Connection
import FactIndex.Update.Document
import FactIndex.Update.Job

/-!
# Writes

A write is done at once, or it is put off. It is put off while the index is being rebuilt, and when the
search engine is out of reach before or during the write. A write that is put off goes into the queue as
a job; the change that belongs to it is kept in the cache.

## Main definitions

* `Deployment.indexEntity`, `Deployment.deleteDocuments`, `Deployment.replicate`: the plain writes.
* `Deployment.create`, `Deployment.delete`, `Deployment.safeReplicate`: the writes that may be put
  off. They answer whether the write was done.
-/

namespace FactIndex

open FactIndex.Digest

namespace Deployment

variable {σ : Type}

/-! ## Plain writes -/

/-- Writes the document of an entity, with nothing but its names. -/
def indexEntity (d : Deployment σ) (e : Entity) : Action σ Unit := do
  let number ← numberOf (.entity e)
  d.storeDocument (d.indexName IndexType.data) (toString number) (.single "subject" e.subjectJson)

/-- The writes that delete a document. That of a concept goes together with the stored list of its
members. -/
def deleteLines (d : Deployment σ) (isConcept : Bool) (id : Json) : List Json :=
  writeLine "delete" (d.indexName IndexType.data) id.plainText ::
    if isConcept then [writeLine "delete" (d.indexName IndexType.lookup) (plainHash id)] else []

/-- Deletes documents. -/
def deleteDocuments (d : Deployment σ) (ids : List Json) (isConcept : Bool) : Action σ Unit := do
  let _ ← d.bulk (ids.flatMap (d.deleteLines isConcept))

/-- The writes that a change amounts to. -/
def mapChange (d : Deployment σ) (change : Change) (index : String) : Action σ (List Json) := do
  return change.operations d.settings.writer (← catalog) index

/-- Writes a change. -/
def replicate (d : Deployment σ) (change : Change) : Action σ Members := do
  let index ← d.writeIndex IndexType.data
  d.bulk (← d.mapChange change index)

/-! ## Jobs -/

/-- Puts a job into the queue, perhaps for later. -/
def enqueue (d : Deployment σ) (job : Job) (delay : Option Float := none) : Action σ Message :=
  onQueue (d.queue.put .waiting job.toMessage .null { delay })

/-- Puts off a write. -/
def defer (d : Deployment σ) (job : Job) : Action σ Unit := do
  if d.isDeferring then
    let _ ← d.enqueue job

/-- Whether a write may be tried. If not, it is put off. -/
def isSafe (d : Deployment σ) (job : Job) : Action σ Bool := do
  let locked ← d.isLocked IndexType.data
  let reachable ← if locked then pure false else d.ping
  if !reachable then d.defer job
  return reachable

/-- Does a write or puts it off, and answers whether it was done. -/
def writeOrDefer (d : Deployment σ) (job : Job) (write : Action σ Unit) : Action σ Bool := do
  if !(← d.isSafe job) then return false
  match ← Effect.attempt write with
  | .ok () => return true
  | .error (.unavailable _) =>
    d.defer job
    return false
  | .error e => throw e

/-! ## Changes that wait -/

/-- Keeps a change in the cache until it can be written. -/
def saveChange (d : Deployment σ) (change : Change) : Action σ Unit :=
  onCache (d.cache.put .waiting (.str (Change.key change.subject)) change.toJson
    (.float d.settings.retry.changesLifetimeSeconds))

/-- The change of an entity that waits to be written. -/
def fetchChange (d : Deployment σ) (subject : Entity) : Action σ (Option Change) := do
  match ← d.cached? (.str (Change.key subject)) with
  | none => return none
  | some value => some <$> .ofExcept (Change.read value).toExcept

/-! ## Writes that may be put off -/

/-- Writes the document of an entity. -/
def create (d : Deployment σ) (e : Entity) : Action σ Bool :=
  d.writeOrDefer { create := some e.hash, origin := d.origin } (d.indexEntity e)

/-- The job of deleting documents. -/
def deletion (d : Deployment σ) (ids : List Json) (isConcept : Json) : Except Failure Job :=
  (Job.read (.obj [("delete", .arr ids), ("is_concept", isConcept),
    ("origin", .str d.origin)])).toExcept

/-- Deletes documents, whose numbers are given as they came. -/
def delete (d : Deployment σ) (ids isConcept : Json) : Action σ Bool := do
  let ids ← .ofExcept ids.elements
  let job ← .ofExcept (d.deletion ids isConcept)
  d.writeOrDefer job (d.deleteDocuments ids isConcept.isGiven)

/-- Writes a change. One that is put off is kept in the cache. -/
def safeReplicate (d : Deployment σ) (change : Change) : Action σ Bool := do
  let job : Job := { replicate := some change.subject.hash, origin := d.origin }
  let isDone ← d.writeOrDefer job do
    let _ ← d.replicate change
  if !isDone then d.saveChange change
  return isDone

end Deployment

end FactIndex
