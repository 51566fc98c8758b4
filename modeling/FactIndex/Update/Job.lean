import FactIndex.Failure
import FactIndex.Schema.Record
import FactIndex.Json.Display

/-!
# Recovery jobs

A write that could not be done is put into the queue as a job. The job says what is to be done and how
often it has been put back.

## Main definitions

* `Job`: the parameters of a deferred write.
* `Job.toMessage`, `Job.ofMessage`: the message that carries a job.
* `JobStatus`: how running a job ends.
-/

namespace FactIndex

open FactIndex.Schema

/-- The parameters of a deferred write. One of `delete`, `create` and `replicate` is set. -/
structure Job where
  /-- The numbers of the documents to delete. -/
  delete : Option (List Int) := none
  /-- Whether the deleted documents are those of concepts. -/
  isConcept : Bool := false
  /-- The hash of the entity to write. -/
  create : Option String := none
  /-- The hash of the entity whose change is to be written. -/
  replicate : Option String := none
  /-- How often the job has been put back. -/
  retries : Int := 0
  /-- When the job was put back first. -/
  createdAt : Option Float := none
  origin : String := ""
deriving DecidableEq

/-- How running a job ends. -/
inductive JobStatus where
  | queued
  | running
  | succeeded
  | requeued
  | givenUp
  | failed
deriving DecidableEq

/-- The word for a status. -/
def JobStatus.name : JobStatus → String
  | .queued => "queued"
  | .running => "running"
  | .succeeded => "succeeded"
  | .requeued => "requeued"
  | .givenUp => "given_up"
  | .failed => "failed"

namespace Job

/-- What the job is about. -/
def subject (job : Job) : String :=
  match job.delete, job.create with
  | some ids, _ => "delete:" ++ (Json.ofInts ids).display
  | none, some hash => "create:" ++ hash
  | none, none => "replicate:" ++ (Json.ofText? job.replicate).plainText

/-- The JSON form. -/
def toJson (job : Job) : Json :=
  .obj [("delete", (job.delete.map Json.ofInts).getD .null), ("is_concept", .bool job.isConcept),
    ("create", Json.ofText? job.create), ("replicate", Json.ofText? job.replicate),
    ("retry_count", .int job.retries), ("created_at", Json.ofFloat? job.createdAt),
    ("origin", .str job.origin)]

/-- Reads the JSON form. -/
def read : Json → Checked Job := record fun ms =>
  Job.mk <$> withDefault ms "delete" none (optional (listOf integer)) <*>
    withDefault ms "is_concept" false truth <*>
    withDefault ms "create" none (optional text) <*>
    withDefault ms "replicate" none (optional text) <*>
    withDefault ms "retry_count" 0 integer <*>
    withDefault ms "created_at" none (optional number) <*>
    withDefault ms "origin" "" text

/-- The type of the messages that carry jobs. -/
def messageType : String := "semindex.elastic.recovery"

/-- The message that carries the job. -/
def toMessage (job : Job) : Json :=
  .obj [("type", .str messageType), ("params", job.toJson)]

/-- The job that a message carries. -/
def ofMessage (message : Json) : Except Failure Job :=
  if message.get? "type" = some (.str messageType) then
    match message.get? "params" with
    | some params => (read params).toExcept
    | none => .error .noMember
  else .error (.badRequest ("Not a recovery job message: " ++ message.display) [])

end Job

end FactIndex
