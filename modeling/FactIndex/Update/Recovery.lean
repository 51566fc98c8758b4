import FactIndex.Update.Write

/-!
# Recovery

A job does a write that was put off. If the search engine is still out of reach the job is put back, up
to a number of times; a rebuild that is going on does not count. Whatever becomes of it, the message
that carried the job is done with.

## Main definitions

* `Deployment.replay`: the write of a job.
* `Deployment.runJob`: one job.
* `Deployment.runJobs`: the jobs that are due.
-/

namespace FactIndex

/-- What became of a job: the job as it was in the end, and its status or what stopped it. -/
structure JobRun where
  job : Job
  outcome : Except Failure JobStatus

/-- The status of a job. One that was stopped is still running. -/
def JobRun.status (r : JobRun) : JobStatus :=
  match r.outcome with
  | .ok status => status
  | .error _ => .running

namespace Job

/-- The job as it is put back at a time. -/
def again (job : Job) (now : Float) : Job :=
  let since := match job.createdAt with
    | some x => if x == 0 then now else x
    | none => now
  { job with retries := job.retries + 1, createdAt := some since }

/-- The job as it waits for a rebuild: as if it had never been put back. -/
def unspent (job : Job) : Job := { job with retries := 0 }

end Job

namespace Deployment

variable {σ : Type}

/-- The write of a job. There may be no change left to write. -/
def replay (d : Deployment σ) (job : Job) : Action σ Unit := do
  if let some ids := job.delete then
    d.deleteDocuments (ids.map Json.int) job.isConcept
  if let some hash := job.create then
    d.indexEntity (← .ofExcept (Entity.ofHash hash))
  if let some hash := job.replicate then
    let subject ← .ofExcept (Entity.ofHash hash)
    if let some change ← d.fetchChange subject then
      let _ ← d.replicate change

/-- Puts a job back, unless that has been done too often. -/
def requeue (d : Deployment σ) (job : Job) : Action σ JobStatus := do
  if d.settings.retry.retries ≤ job.retries then return .givenUp
  let now ← currentTime
  let _ ← d.enqueue (job.again now) (some d.settings.retry.delaySeconds)
  return .requeued

/-- Does the write of a job, or puts the job back. -/
def work (d : Deployment σ) (job : Job) (locked : Bool) : Action σ JobStatus := do
  let reachable ← if locked then pure false else d.ping
  if !reachable then return ← d.requeue job
  match ← Effect.attempt (d.replay job) with
  | .ok () => return .succeeded
  | .error (.unavailable _) => d.requeue job
  | .error e => throw e

/-- Runs one job. -/
def runJob (d : Deployment σ) (job : Job) : Action σ JobRun := do
  match ← Effect.attempt (d.isLocked IndexType.data) with
  | .error e => return ⟨job, .error e⟩
  | .ok locked =>
    let job := if locked then job.unspent else job
    return ⟨job, ← Effect.attempt (d.work job locked)⟩

/-- The message of a job is done with. -/
def acknowledge (d : Deployment σ) (m : Message) : Action σ Unit :=
  onQueue (d.queue.ack .waiting (.str m.id))

/-- Runs the job that a message carries. A message that carries none is dropped. A write that was refused
has failed for good. -/
def runMessage (d : Deployment σ) (m : Message) : Action σ (Option JobStatus) := do
  match Job.ofMessage m.value with
  | .error (.badRequest _ _) =>
    d.acknowledge m
    return none
  | .error e => throw e
  | .ok job =>
    let run ← d.runJob job
    d.acknowledge m
    match run.outcome with
    | .ok status => return some status
    | .error (.client (.refused _ _ _)) => return some .failed
    | .error e => throw e

/-- The statuses of the jobs of several messages. -/
def runMessages (d : Deployment σ) : List Message → Action σ (List JobStatus)
  | [] => return []
  | m :: ms => do
    let status ← d.runMessage m
    let statuses ← d.runMessages ms
    return status.toList ++ statuses

/-- Runs the jobs that are due, so many of them as are asked for. -/
def runJobs (d : Deployment σ) (count : Json) : Action σ (List JobStatus) := do
  let options ← .ofExcept (PullOptions.read (.single "max_count" count)).toExcept
  d.runMessages (← onQueue (d.queue.pull options))

end Deployment

end FactIndex
