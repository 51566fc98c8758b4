import FactIndex.Proofs.Cache.Entry
import FactIndex.Proofs.Queue.Contents
import FactIndex.Proofs.Update.Legible
import FactIndex.Proofs.Update.Replication

/-!
# Done, put off or refused

A write that may be put off ends in one of three ways. It is done, and nothing waits for it; it is put off,
and then the documents are as they were and one new message carries exactly this write; or it is refused,
and nothing has changed. While a rebuild is going on, and where the engine does not say that it is there,
nothing that writes is sent to the engine at all.

## Main definitions

* `WriteCall`: the writes that may be put off, with the job and the request of each.
* `SearchClient.Keeps`: an engine on which a request that fails has no effect.
* `World.backdrop`: what a write leaves unless it is put off.
* `WriteCall.IsDone`, `WriteCall.IsPutOff`: how a write ends.
* `WriteCall.meets_run`: a write is done, put off or refused.
-/

namespace FactIndex

open FactIndex.Effect FactIndex.KeyValue

variable {σ α : Type}

/-! ## Writes -/

/-- A write that may be put off. -/
inductive WriteCall where
  | create (e : Entity)
  | delete (ids : List Int) (isConcept : Bool)
  | replicate (change : Change)

/-- The request that does several writes. Without any there is none. -/
def Request.ofLines (operations : List Json) : Option Request :=
  if operations.isEmpty then none else some (.bulk operations)

namespace WriteCall

/-- Does a write or puts it off. -/
def run (d : Deployment σ) : WriteCall → Action σ Bool
  | .create e => d.create e
  | .delete ids isConcept => d.delete (Json.ofInts ids) (.bool isConcept)
  | .replicate change => d.safeReplicate change

/-- The job that carries a write: as if it had never been put back. -/
def job (d : Deployment σ) : WriteCall → Job
  | .create e => { create := some e.hash, origin := d.origin }
  | .delete ids isConcept => { delete := some ids, isConcept, origin := d.origin }
  | .replicate change => d.replication change

/-- Does a write, come what may. -/
def write (d : Deployment σ) : WriteCall → Action σ Unit
  | .create e => d.indexEntity e
  | .delete ids isConcept => d.deleteDocuments (ids.map Json.int) isConcept
  | .replicate change => do
    let _ ← d.replicate change

/-- The request that a write is, while no rebuild is going on. -/
def request? (d : Deployment σ) (c : Catalog) : WriteCall → Option Request
  | .create e => some (.store (d.indexName IndexType.data) (toString (c.number (.entity e)).1)
      (.single "subject" e.subjectJson))
  | .delete ids isConcept => Request.ofLines ((ids.map Json.int).flatMap (d.deleteLines isConcept))
  | .replicate change =>
    Request.ofLines (change.operations d.settings.writer c (d.indexName IndexType.data))

end WriteCall

/-! ## What is seen -/

/-- An engine on which a request that fails has no effect on what a view shows, and being asked whether it
is there has none either. -/
structure SearchClient.Keeps (client : SearchClient σ) (documents : σ → α) : Prop where
  ping : ∀ s, documents (client.send .ping s).2 = documents s
  failed : ∀ r s e, (client.send r s).1 = .error e → documents (client.send r s).2 = documents s

/-- Whether a request that was sent can change documents or indices. -/
def Call.isWrite (call : Call) : Bool :=
  ["index", "bulk", "create", "delete_index", "update_aliases"].contains call.name

@[simp] theorem Request.isWrite_call (r : Request) : r.call.isWrite = r.isWrite := by
  cases r <;> rfl

/-- Commands to the key-value server do not write to the engine. -/
@[simp] theorem Call.isWrite_command (name : String) (arguments : Json) :
    Call.isWrite ⟨"redis." ++ name, arguments⟩ = false := by
  have hother : ∀ other ∈ ["index", "bulk", "create", "delete_index", "update_aliases"],
      other.toList.head? ≠ some 'r' := by decide
  have hhead : ("redis." ++ name).toList.head? = some 'r' := by simp
  have hnone : "redis." ++ name ∉ ["index", "bulk", "create", "delete_index", "update_aliases"] :=
    fun hmem => hother _ hmem hhead
  unfold Call.isWrite
  rw [← Bool.not_eq_true, List.contains_iff_mem]
  exact hnone

namespace World

/-- The requests that write, the last one first. -/
def written (w : World σ) : List Call := w.host.network.calls.filter Call.isWrite

/-- What the queue holds. -/
def queued (d : Deployment σ) (w : World σ) : Queue.Contents := d.queue.contents (w.queue, w.host)

/-- What a write leaves unless it is put off: the queue, the server, what jobs see, the time and the names
that have been given. -/
def backdrop (d : Deployment σ) (w : World σ) :
    (Queue.State × Server × (String → Option Json) × Bool × Except Failure Bool) × Float × Nat :=
  (w.footing d, w.host.network.standing)

variable {d : Deployment σ} {w w' : World σ}

theorem queued_congr (h : w'.backdrop d = w.backdrop d) : w'.queued d = w.queued d := by
  simp only [backdrop, footing, Prod.mk.injEq] at h
  unfold queued Queue.contents
  rw [h.1.1, h.1.2.1]

theorem sight_congr (h : w'.backdrop d = w.backdrop d) : w'.sight d = w.sight d := by
  simp only [backdrop, footing, Prod.mk.injEq] at h
  exact h.1.2.2

end World

variable {d : Deployment σ} {w : World σ}

namespace Deployment

theorem isAside_backdrop : d.IsAside (World.backdrop d) where
  ask _ _ := rfl
  has key w := congrArg₂ Prod.mk (isAside_footing.has key w)
    (Cache.leaves_host_has Host.IsQuiet.standing key (w.cache, w.host))
  get key w := congrArg₂ Prod.mk (isAside_footing.get key w)
    (Cache.leaves_host_get Host.IsQuiet.standing key (w.cache, w.host))
  number _ _ := rfl

theorem isQuiet_tables : Host.IsQuiet (fun h : Host => (h.server.tables, h.server.sets)) :=
  fun _ _ _ => rfl

theorem isQuiet_written : Host.IsQuiet (fun h : Host => h.network.calls.filter Call.isWrite) := by
  intro h name arguments
  simp [Network.record]

/-- Whatever the engine answers when it is asked whether it is there, nothing else is changed. -/
theorem outcome_ping (d : Deployment σ) (w : World σ) :
    d.ping.outcome w = ((d.ping.outcome w).1, w.asked d .ping) := by
  unfold ping
  rw [outcome_bind_of_ok (outcome_ask d .ping w)]
  rcases (d.client.send .ping w.engine).1 with e | answer
  · cases e <;> rfl
  · rfl

/-- Several writes are one request, if there are any. -/
theorem outcome_bulk_unit (hclient : d.client.AnswersObjects) (operations : List Json) :
    (do let _ ← d.bulk operations : Action σ Unit).outcome w =
      match Request.ofLines operations with
      | none => (.ok (), w)
      | some r => (((d.client.send r w.engine).1.mapError asFailure).map fun _ => (), w.asked d r) := by
  unfold bulk Request.ofLines
  split
  · rfl
  · dsimp only
    simp only [bind_assoc]
    rw [outcome_bind, outcome_demand]
    rcases hsend : d.client.send (.bulk operations) w.engine with ⟨e | answer, engine⟩
    · rfl
    · obtain ⟨ms, rfl⟩ := hclient operations w.engine answer engine hsend
      rfl

end Deployment

/-- A write sends its request and nothing else, after what it needs to know has been looked up. -/
theorem WriteCall.outcome_write (hclient : d.client.AnswersObjects) (hfree : w.IsFree d)
    (hlink : w.IsLinked d) (call : WriteCall) : ∃ looked : World σ,
      looked.backdrop d = w.backdrop d ∧ looked.engine = w.engine ∧ looked.written = w.written ∧
      (call.write d).outcome w =
        match call.request? d w.catalog with
        | none => (.ok (), looked)
        | some r => (((d.client.send r w.engine).1.mapError Deployment.asFailure).map fun _ => (),
            looked.asked d r) := by
  cases call with
  | create e =>
      refine ⟨{ w with catalog := (w.catalog.number (.entity e)).2 }, rfl, rfl, rfl, ?_⟩
      exact Deployment.outcome_demand_unit _ _ _
  | delete ids isConcept =>
      exact ⟨w, rfl, rfl, rfl, Deployment.outcome_bulk_unit hclient _⟩
  | replicate change =>
      have hindex := Deployment.writeIndex_eq hfree hlink
      have hview := (Deployment.isAside_backdrop (d := d)).writeIndex IndexType.data w
      have hwritten : ((d.writeIndex IndexType.data).outcome w).2.written = w.written :=
        leaves_writeIndex (fun w => Cache.leaves_host_get Deployment.isQuiet_written _ (w.cache, w.host)) w
      have hengine : ((d.writeIndex IndexType.data).outcome w).2.engine = w.engine :=
        leaves_writeIndex (fun _ => rfl) w
      have hcatalog : ((d.writeIndex IndexType.data).outcome w).2.catalog = w.catalog :=
        leaves_writeIndex (fun _ => rfl) w
      unfold WriteCall.write Deployment.replicate
      simp only [bind_assoc]
      rw [outcome_bind_of_answer hindex]
      generalize ((d.writeIndex IndexType.data).outcome w).2 = looked at hview hwritten hengine hcatalog ⊢
      refine ⟨looked, hview, hengine, hwritten, ?_⟩
      have hmap : (d.mapChange change (d.indexName IndexType.data)).outcome looked =
          (.ok (change.operations d.settings.writer w.catalog (d.indexName IndexType.data)), looked) := by
        rw [← hcatalog]
        rfl
      rw [outcome_bind_of_ok hmap, ← hengine]
      exact Deployment.outcome_bulk_unit hclient _

/-! ## Putting off -/

/-- Writes that are put off get a message of their own in a queue that can be reached. -/
structure World.Defers (d : Deployment σ) (w : World σ) : Prop where
  isDeferring : d.isDeferring = true
  isConnected : d.queue.isConnected (w.queue, w.host) = true
  isNew : w.host.network.issue.1 ∉ (w.queued d).names

theorem World.Defers.congr (h : w.Defers d) {w' : World σ} (heq : w'.backdrop d = w.backdrop d) :
    w'.Defers d := by
  have hqueued := World.queued_congr heq
  simp only [World.backdrop, World.footing, Prod.mk.injEq] at heq
  have hissued : w'.host.network.issued = w.host.network.issued := congrArg Prod.snd heq.2
  refine ⟨h.isDeferring, ?_, ?_⟩
  · have hconnected := h.isConnected
    unfold Queue.isConnected at hconnected ⊢
    rwa [heq.1.1]
  · have hnew := h.isNew
    unfold Network.issue at hnew ⊢
    rwa [hqueued, hissued]

/-- The queue has one message more, which carries a job as it is. -/
def World.Gains (d : Deployment σ) (w : World σ) (job : Job) (after : World σ) : Prop :=
  after.queued d = (w.queued d).add (Queue.nextMessage w.host.network job.toMessage none)

/-- Putting a job into the queue adds one message and changes nothing else that is seen. -/
theorem Deployment.outcome_enqueue_add (hconnected : d.queue.isConnected (w.queue, w.host) = true)
    (hnew : w.host.network.issue.1 ∉ (w.queued d).names) (job : Job) (delay : Option Float) :
    ∃ after, (d.enqueue job delay).outcome w =
        (.ok (Queue.nextMessage w.host.network job.toMessage delay), after) ∧
      after.queued d = (w.queued d).add (Queue.nextMessage w.host.network job.toMessage delay) ∧
      after.engine = w.engine ∧ after.sight d = w.sight d ∧ after.written = w.written ∧
      after.host.network.standing = (w.host.network.now, w.host.network.issued + 1) ∧
      d.queue.isConnected (after.queue, after.host) = true := by
  obtain ⟨site, hput, hcontents, hstanding⟩ := Queue.outcome_put_eq hconnected hnew
    [("type", .str Job.messageType), ("params", job.toJson)] delay
  obtain ⟨m, site', hput', -, hconnected'⟩ := Queue.outcome_put hconnected
    [("type", .str Job.messageType), ("params", job.toJson)] { delay }
  cases hput.symm.trans hput'
  have hsight := leaves_sight_onQueue (d := d) (d.queue.leaves_put job.toMessage .null { delay }) w
  have hwritten := Queue.leaves_host_put (q := d.queue) isQuiet_written (fun _ _ => rfl) (fun _ => rfl)
    job.toMessage .null { delay } (w.queue, w.host)
  have houtcome : (d.enqueue job delay).outcome w =
      (.ok _, { w with queue := site.1, host := site.2 }) := outcome_onQueue hput
  have hsame : (d.queue.put .waiting job.toMessage .null { delay }).outcome (w.queue, w.host) = _ := hput
  unfold Deployment.enqueue at houtcome
  rw [houtcome] at hsight
  rw [hsame] at hwritten
  exact ⟨_, houtcome, hcontents, rfl, hsight, hwritten, hstanding, hconnected'⟩

theorem Deployment.outcome_defer (h : w.Defers d) (job : Job) : ∃ after,
    (d.defer job).outcome w = (.ok (), after) ∧ w.Gains d job after ∧ after.engine = w.engine ∧
      after.sight d = w.sight d ∧ after.written = w.written := by
  obtain ⟨after, hput, hgains, hengine, hsight, hwritten, -⟩ :=
    outcome_enqueue_add h.isConnected h.isNew job none
  refine ⟨after, ?_, hgains, hengine, hsight, hwritten⟩
  unfold Deployment.defer
  rw [if_pos h.isDeferring, outcome_bind_of_ok hput]
  rfl

/-- The answer to whether the engine is there depends on the engine alone. -/
theorem Deployment.ping_fst_congr {w' : World σ} (h : w'.engine = w.engine) :
    (d.ping.outcome w').1 = (d.ping.outcome w).1 := by
  unfold ping
  rw [outcome_bind_of_ok (outcome_ask d .ping w'), outcome_bind_of_ok (outcome_ask d .ping w), h]
  rcases (d.client.send .ping w.engine).1 with e | answer
  · cases e <;> rfl
  · rfl

/-- What has been put off from a world that is no other as far as is seen has been put off from this. -/
theorem World.Gains.congr {job : Job} {w' after : World σ} (h : w'.Gains d job after)
    (heq : w'.backdrop d = w.backdrop d) : w.Gains d job after := by
  have hstanding : w'.host.network.standing = w.host.network.standing := congrArg Prod.snd heq
  unfold World.Gains at h ⊢
  rwa [World.queued_congr heq, Queue.nextMessage_congr hstanding] at h

/-- A write may not be tried: it is put off, or the engine has refused to say whether it is there. -/
structure Deployment.Withholds (d : Deployment σ) (w : World σ) (job : Job) (after : World σ) : Prop where
  engine : after.engine = w.engine ∨ after.engine = (d.client.send .ping w.engine).2
  sight : after.sight d = w.sight d
  written : after.written = w.written
  ends : (d.isSafe job).outcome w = (.ok false, after) ∧ w.Gains d job after ∨
    ∃ e, (d.isSafe job).outcome w = (.error e, after) ∧ e.isRefusal = true ∧
      after.queued d = w.queued d

/-- A write is tried where no rebuild is going on and the engine says that it is there, and nowhere else. -/
theorem Deployment.isSafe_cases (hlink : w.IsLinked d) (h : w.Defers d) (job : Job) :
    (w.IsFree d ∧ (d.ping.outcome w).1 = .ok true ∧ ∃ tried,
      (d.isSafe job).outcome w = (.ok true, tried) ∧ tried.backdrop d = w.backdrop d ∧
        tried.engine = (d.client.send .ping w.engine).2 ∧ tried.catalog = w.catalog ∧
        tried.written = w.written) ∨
    (¬ w.IsFree d ∨ (d.ping.outcome w).1 ≠ .ok true) ∧ ∃ after, d.Withholds w job after := by
  obtain ⟨locked, hlocked, hfree⟩ := isLocked_of_isLinked hlink
  have hbackdrop := (isAside_backdrop (d := d)).isLocked IndexType.data w
  have hwritten : ((d.isLocked IndexType.data).outcome w).2.written = w.written :=
    Cache.leaves_host_has isQuiet_written _ (w.cache, w.host)
  have hengine : ((d.isLocked IndexType.data).outcome w).2.engine = w.engine := rfl
  have hcatalog : ((d.isLocked IndexType.data).outcome w).2.catalog = w.catalog := rfl
  have hsafe := outcome_bind_of_answer hlocked fun locked => (do
    let reachable ← if locked then pure false else d.ping
    if !reachable then d.defer job
    return reachable : Action σ Bool)
  generalize ((d.isLocked IndexType.data).outcome w).2 = looked
    at hbackdrop hwritten hengine hcatalog hsafe
  change (d.isSafe job).outcome w = _ at hsafe
  have hdefers := h.congr hbackdrop
  cases locked with
  | true =>
      obtain ⟨after, hdefer, hgains, hsame, hsight, hsent⟩ := outcome_defer hdefers job
      refine .inr ⟨.inl fun hfree' => Bool.false_ne_true (hfree.mpr hfree').symm, after,
        .inl (hsame.trans hengine), hsight.trans (World.sight_congr hbackdrop), hsent.trans hwritten,
        .inl ⟨?_, hgains.congr hbackdrop⟩⟩
      simp only [if_true, pure_bind, Bool.not_false] at hsafe
      rw [hsafe, outcome_bind_of_ok hdefer]
      rfl
  | false =>
      simp only [Bool.false_eq_true, if_false] at hsafe
      have hping := outcome_ping d looked
      rw [ping_fst_congr hengine] at hping
      have hasked : (looked.asked d .ping).engine = (d.client.send .ping w.engine).2 := by
        rw [World.asked_engine, hengine]
      rcases hanswer : (d.ping.outcome w).1 with e | _ | _
      · rw [hanswer] at hping
        refine .inr ⟨.inr nofun, looked.asked d .ping, .inr hasked, World.sight_congr hbackdrop, hwritten,
          .inr ⟨e, ?_, meets_ping_refusal e hanswer, World.queued_congr hbackdrop⟩⟩
        rw [hsafe, outcome_bind_of_error hping]
      · rw [hanswer] at hping
        have hthere : (looked.asked d .ping).backdrop d = w.backdrop d := hbackdrop
        obtain ⟨after, hdefer, hgains, hsame, hsight, hsent⟩ := outcome_defer (h.congr hthere) job
        refine .inr ⟨.inr (by simp), after, .inr (hsame.trans hasked),
          hsight.trans (World.sight_congr hbackdrop), hsent.trans hwritten,
          .inl ⟨?_, hgains.congr hthere⟩⟩
        rw [hsafe, outcome_bind_of_ok hping]
        simp only [Bool.not_false, if_true]
        rw [outcome_bind_of_ok hdefer]
        rfl
      · rw [hanswer] at hping
        refine .inl ⟨hfree.mp rfl, rfl, looked.asked d .ping, ?_, hbackdrop, hasked, hcatalog, hwritten⟩
        rw [hsafe, outcome_bind_of_ok hping]
        rfl

/-! ## The engine in memory -/

namespace Cluster

theorem answersObjects : Cluster.client.AnswersObjects := by
  intro operations c answer after h
  change c.answer _ = _ at h
  unfold Cluster.answer at h
  split at h
  · cases h
  · split at h
    · cases h
      exact ⟨_, rfl⟩
    · cases h

/-- A request that fails changes no document. -/
theorem keeps : Cluster.client.Keeps Cluster.document? where
  ping c := c.document?_answer_of_not_isWrite rfl
  failed r c e h := by
    change (c.answer r).1 = _ at h
    show (c.answer r).2.document? = _
    cases hwrite : r.isWrite with
    | false => exact c.document?_answer_of_not_isWrite hwrite
    | true =>
        unfold Cluster.answer at h ⊢
        split
        · rfl
        · rename_i hnone
          rw [hnone] at h
          split
          · rename_i hreached
            simp only [if_pos hreached] at h
            cases r with
            | createIndex name body =>
                unfold Cluster.perform at h ⊢
                dsimp only at h ⊢
                split
                · rfl
                · rename_i hnew
                  rw [if_neg hnew] at h
                  cases h
            | deleteIndex name =>
                unfold Cluster.perform at h ⊢
                dsimp only at h ⊢
                split
                · rename_i hthere
                  rw [if_pos hthere] at h
                  cases h
                · rfl
            | store | bulk | updateAliases => cases h
            | _ => cases hwrite
          · rfl

end Cluster

/-! ## How a write ends -/

namespace WriteCall

/-- A write has been done: its request, if there is one, was sent once the engine had said that it is
there, and was accepted. The queue and the cache are as they were. -/
structure IsDone (d : Deployment σ) (call : WriteCall) (w after : World σ) : Prop where
  accepted : match call.request? d w.catalog with
    | some r => after.written = r.call :: w.written ∧ ∃ answer,
        d.client.send r (d.client.send .ping w.engine).2 = (.ok answer, after.engine)
    | none => after.written = w.written ∧ after.engine = (d.client.send .ping w.engine).2
  queued : after.queued d = w.queued d
  sight : after.sight d = w.sight d

/-- What the cache holds once a write has been put off: a change is held under its entity, and otherwise
nothing is new. -/
def IsKept (d : Deployment σ) (w after : World σ) : WriteCall → Prop
  | .replicate change => ∃ full, d.cache.fullKey (.str (Change.key change.subject)) = .ok full ∧
      d.cache.kept (after.cache, after.host) full = some (d.cache.form change.toJson) ∧
      ∀ other, full ≠ other →
        (after.surroundings d).2.served other = (w.surroundings d).2.served other
  | _ => after.sight d = w.sight d

/-- A write has been put off: the documents are as they were, the queue has one message more, and a change
is held by the cache. -/
structure IsPutOff (d : Deployment σ) (documents : σ → α) (call : WriteCall) (w after : World σ) : Prop where
  documents : documents after.engine = documents w.engine
  queued : w.Gains d (call.job d) after
  kept : call.IsKept d w after

/-- A write has been refused, and nothing has changed. -/
structure IsRefused (d : Deployment σ) (documents : σ → α) (e : Failure) (w after : World σ) : Prop where
  refusal : e.isRefusal = true
  documents : documents after.engine = documents w.engine
  queued : after.queued d = w.queued d
  sight : after.sight d = w.sight d

theorem isWrite_of_request? {c : Catalog} {r : Request} {call : WriteCall}
    (h : call.request? d c = some r) : r.isWrite = true := by
  have hlines : ∀ operations, Request.ofLines operations = some r → r.isWrite = true := by
    intro operations hsome
    unfold Request.ofLines at hsome
    split at hsome
    · cases hsome
    · cases hsome
      rfl
  cases call with
  | create e =>
      cases h
      rfl
  | delete ids isConcept => exact hlines _ h
  | replicate change => exact hlines _ h

variable {documents : σ → α}

/-- A write is done, put off or refused. It is only sent where no rebuild is going on and the engine says
that it is there. -/
theorem meets_writeOrDefer (hclient : d.client.AnswersObjects) (hkeeps : d.client.Keeps documents)
    (hlink : w.IsLinked d) (h : w.Defers d) (call : WriteCall) :
    (d.writeOrDefer (call.job d) (call.write d)).Meets w fun r after =>
      (match r with
        | .ok true => call.IsDone d w after
        | .ok false => documents after.engine = documents w.engine ∧ w.Gains d (call.job d) after ∧
            after.sight d = w.sight d
        | .error e => IsRefused d documents e w after) ∧
      (¬ w.IsFree d ∨ (d.ping.outcome w).1 ≠ .ok true → r ≠ .ok true ∧ after.written = w.written) := by
  have hpinged : documents (d.client.send .ping w.engine).2 = documents w.engine := hkeeps.ping _
  rcases Deployment.isSafe_cases hlink h (call.job d) with
    ⟨hfree, hping, tried, hsafe, hbackdrop, hengine, hcatalog, hwritten⟩ | ⟨hnotsafe, after, hwithheld⟩
  · have htried : ¬ (¬ w.IsFree d ∨ (d.ping.outcome w).1 ≠ .ok true) := by
      simp only [not_or, not_not, ne_eq]
      exact ⟨hfree, hping⟩
    obtain ⟨looked, hstill, hsame, hsent, hwrite⟩ := outcome_write hclient
      (hfree.of_sight (World.sight_congr hbackdrop)) (hlink.of_sight (World.sight_congr hbackdrop)) call
    rw [hcatalog] at hwrite
    have hlooked := hstill.trans hbackdrop
    have hattempt := outcome_attempt (call.write d) tried
    refine Meets.bind_of_ok hsafe (Meets.bind_of_ok hattempt ?_)
    rw [hwrite]
    rcases hrequest : call.request? d w.catalog with _ | r
    · refine Meets.pure ⟨⟨?_, World.queued_congr hlooked, World.sight_congr hlooked⟩,
        fun hnot => absurd hnot htried⟩
      rw [hrequest]
      exact ⟨hsent.trans hwritten, hsame.trans hengine⟩
    · have hafter : (looked.asked d r).backdrop d = w.backdrop d := hlooked
      have hasked : (looked.asked d r).engine = (d.client.send r (d.client.send .ping w.engine).2).2 := by
        rw [World.asked_engine, hsame, hengine]
      rw [hengine]
      dsimp only
      rcases hsend : d.client.send r (d.client.send .ping w.engine).2 with ⟨e | answer, t⟩
      · have hfailed : documents (looked.asked d r).engine = documents w.engine := by
          rw [hasked, hkeeps.failed r _ e (by rw [hsend]), hpinged]
        have hdefer : (do d.defer (call.job d); return false : Action σ Bool).Meets (looked.asked d r)
            fun r after => r = .ok false ∧ documents after.engine = documents w.engine ∧
              w.Gains d (call.job d) after ∧ after.sight d = w.sight d := by
          obtain ⟨after, hdefer, hgains, hengine, hsight, -⟩ :=
            Deployment.outcome_defer (h.congr hafter) (call.job d)
          exact Meets.bind_of_ok hdefer ⟨rfl, (congrArg documents hengine).trans hfailed,
            hgains.congr hafter, hsight.trans (World.sight_congr hafter)⟩
        cases e with
        | refused status error reason =>
            exact ⟨⟨rfl, hfailed, World.queued_congr hafter, World.sight_congr hafter⟩,
              fun hnot => absurd hnot htried⟩
        | _ =>
            refine hdefer.mono ?_
            rintro _ after ⟨rfl, hend⟩
            exact ⟨hend, fun hnot => absurd hnot htried⟩
      · refine Meets.pure ⟨⟨?_, World.queued_congr hafter, World.sight_congr hafter⟩,
          fun hnot => absurd hnot htried⟩
        rw [hrequest]
        refine ⟨?_, answer, ?_⟩
        · have hcall : r.call.isWrite = true := (r.isWrite_call).trans (isWrite_of_request? hrequest)
          show (r.call :: looked.host.network.calls).filter Call.isWrite = _
          rw [List.filter_cons_of_pos hcall]
          exact congrArg (r.call :: ·) (hsent.trans hwritten)
        · rw [hasked, hsend]
  · obtain ⟨hengine, hsight, hsent, hends⟩ := hwithheld
    have hsame : documents after.engine = documents w.engine := by
      rcases hengine with heq | heq
      · rw [heq]
      · rw [heq, hpinged]
    rcases hends with ⟨hsafe, hgains⟩ | ⟨e, hsafe, hrefusal, hqueued⟩
    · exact Meets.bind_of_ok hsafe (Meets.pure ⟨⟨hsame, hgains, hsight⟩, fun _ => ⟨nofun, hsent⟩⟩)
    · exact Meets.bind_of_error hsafe ⟨⟨hrefusal, hsame, hqueued, hsight⟩, fun _ => ⟨nofun, hsent⟩⟩

/-- A deletion is put into the queue with the numbers that it was given. -/
theorem deletion_ofInts (d : Deployment σ) (ids : List Int) (isConcept : Bool) :
    d.deletion (ids.map Json.int) (.bool isConcept) = .ok ((delete ids isConcept).job d) := by
  have hids : Schema.listOf Schema.integer (.arr (ids.map Json.int)) = .ok ids :=
    Schema.inverts_listOf Schema.inverts_integer ids
  have hdelete : Schema.withDefault [("delete", Json.arr (ids.map Json.int)),
      ("is_concept", .bool isConcept), ("origin", .str d.origin)] "delete" none
        (Schema.optional (Schema.listOf Schema.integer)) = .ok (some ids) := by
    refine Schema.withDefault_of_get rfl ?_
    show some <$> Schema.listOf Schema.integer (.arr (ids.map Json.int)) = _
    rw [hids]
    rfl
  unfold Deployment.deletion Job.read Schema.record
  simp only [hdelete]
  rfl

theorem run_delete (d : Deployment σ) (ids : List Int) (isConcept : Bool) :
    (delete ids isConcept).run d =
      d.writeOrDefer ((delete ids isConcept).job d) ((delete ids isConcept).write d) := by
  show (do
    let ids ← .ofExcept (Json.ofInts ids).elements
    let job ← .ofExcept (d.deletion ids (.bool isConcept))
    d.writeOrDefer job (d.deleteDocuments ids (Json.bool isConcept).isGiven) : Action σ Bool) = _
  have helements : (Json.ofInts ids).elements = .ok (ids.map Json.int) := rfl
  have hofExcept : ∀ {β : Type} (b : β), (Effect.ofExcept (.ok b) : Action σ β) = pure b := fun _ => rfl
  rw [helements, hofExcept, pure_bind, deletion_ofInts, hofExcept, pure_bind]
  rfl

/-- Keeping a change sets it under its entity, and changes nothing else that is seen. -/
theorem outcome_saveChange (hcache : d.cache.IsUsable .waiting d.settings.retry.changesLifetimeSeconds)
    (change : Change) : ∃ after, (d.saveChange change).outcome w = (.ok (), after) ∧
      after.engine = w.engine ∧ after.queued d = w.queued d ∧ after.written = w.written ∧
      (replicate change).IsKept d w after := by
  have hvalue : change.toJson ≠ .null := nofun
  obtain ⟨full, limit, site, hput, hfull, -, hnow, hself, hothers⟩ :=
    Cache.outcome_put_entry hcache (Change.key change.subject) hvalue (w.cache, w.host)
  have hwritten : Leaves (fun site : Cache.Site => site.2.network.calls.filter Call.isWrite)
      (d.cache.put .waiting (.str (Change.key change.subject)) change.toJson
        (.float d.settings.retry.changesLifetimeSeconds)) :=
    Cache.leaves_host_put Deployment.isQuiet_written (fun _ _ => rfl) _ _ _
  have hserver : Leaves (fun site : Cache.Site => (site.2.server.tables, site.2.server.sets))
      (d.cache.put .waiting (.str (Change.key change.subject)) change.toJson
        (.float d.settings.retry.changesLifetimeSeconds)) :=
    Cache.leaves_host_put Deployment.isQuiet_tables (fun _ _ => rfl) _ _ _
  replace hwritten := hwritten (w.cache, w.host)
  replace hserver := hserver (w.cache, w.host)
  rw [hput] at hwritten hserver
  simp only [Prod.mk.injEq] at hserver
  have houtcome : (d.saveChange change).outcome w =
      (.ok (), { w with cache := site.1, host := site.2 }) :=
    congrArg (fun put : Except Failure Unit × Cache.Site =>
      (put.1, ({ w with cache := put.2.1, host := put.2.2 } : World σ))) hput
  refine ⟨_, houtcome, rfl, ?_, hwritten, full, hfull, ?_, fun other hother => ?_⟩
  · unfold World.queued Queue.contents Server.scored Server.table
    rw [hserver.1, hserver.2]
  · exact (Cache.kept_eq full).trans (congrArg (Option.map Prod.fst) hself)
  · show d.cache.served site other = d.cache.served (w.cache, w.host) other
    rw [Cache.served_eq, Cache.served_eq]
    unfold Cache.fresh
    rw [hothers other hother, hnow]

/-- A write is done, put off or refused, and nothing else: what is put off waits in the queue and the
documents are as they were; what is done or refused does not wait. While a rebuild is going on, and where
the engine does not say that it is there, nothing that writes is sent to it. -/
theorem meets_run (hclient : d.client.AnswersObjects) (hkeeps : d.client.Keeps documents)
    (hcache : d.cache.IsUsable .waiting d.settings.retry.changesLifetimeSeconds) (h : w.Defers d)
    (call : WriteCall) : (call.run d).Meets w fun r after =>
      (match r with
        | .ok true => call.IsDone d w after
        | .ok false => call.IsPutOff d documents w after
        | .error e => IsRefused d documents e w after) ∧
      (¬ w.IsFree d ∨ (d.ping.outcome w).1 ≠ .ok true → r ≠ .ok true ∧ after.written = w.written) := by
  have hlink : w.IsLinked d := Cache.isConnected_of_isUsable hcache _
  have hends := meets_writeOrDefer hclient hkeeps hlink h call
  cases call with
  | create e =>
      refine Meets.mono hends fun r after ⟨hend, hnot⟩ => ⟨?_, hnot⟩
      rcases r with e | _ | _
      · exact hend
      · exact ⟨hend.1, hend.2.1, hend.2.2⟩
      · exact hend
  | delete ids isConcept =>
      rw [run_delete]
      refine Meets.mono hends fun r after ⟨hend, hnot⟩ => ⟨?_, hnot⟩
      rcases r with e | _ | _
      · exact hend
      · exact ⟨hend.1, hend.2.1, hend.2.2⟩
      · exact hend
  | replicate change =>
      refine Meets.bind hends (fun isDone tried ⟨hend, hnot⟩ => ?_) fun e after hend => hend
      cases isDone with
      | true => exact Meets.pure ⟨hend, hnot⟩
      | false =>
          obtain ⟨hdocuments, hgains, hsight⟩ := hend
          obtain ⟨after, hsave, hengine, hqueued, hwritten, full, hfull, hself, hothers⟩ :=
            outcome_saveChange (w := tried) hcache change
          refine Meets.bind_of_ok hsave (Meets.pure ⟨⟨?_, ?_, full, hfull, hself, fun other hother => ?_⟩,
            fun hnotsafe => ⟨nofun, hwritten.trans (hnot hnotsafe).2⟩⟩)
          · rw [hengine, hdocuments]
          · exact hqueued.trans hgains
          · rw [hothers other hother]
            exact congrFun (congrArg Prod.fst hsight) other

/-! ### A change that is lost on its way -/

private def losingDeployment : Deployment Cluster where
  client := Cluster.client
  cache := {}
  queue := {}

/-- The engine says that it is there, and loses what is written. -/
private def losingWorld : World Cluster where
  engine := { errors := [("bulk", .transport)] }
  catalog := { next := 3 }

private def countedTown : Change where
  subject := { title := "Town" }
  subjectNumber := 1
  rows := [{ table := "data", rows := [⟨.insert, some 1, some 2, some (.number 5), fun _ => rfl⟩] }]

/-- A change that is lost on its way is put off, and so is every other write then. -/
theorem meets_run_lost :
    losingWorld.Defers losingDeployment ∧
      losingDeployment.cache.IsUsable .waiting losingDeployment.settings.retry.changesLifetimeSeconds ∧
      ∃ after, ((replicate countedTown).run losingDeployment).outcome losingWorld = (.ok false, after) ∧
        (replicate countedTown).IsPutOff losingDeployment Cluster.document? losingWorld after := by
  have hdefers : losingWorld.Defers losingDeployment := ⟨rfl, rfl, by decide +kernel⟩
  have hcache : losingDeployment.cache.IsUsable .waiting
      losingDeployment.settings.retry.changesLifetimeSeconds := nofun
  have hends := meets_run Cluster.answersObjects Cluster.keeps hcache hdefers (replicate countedTown)
  have hanswer : (((replicate countedTown).run losingDeployment).outcome losingWorld).1 = .ok false := rfl
  exact ⟨hdefers, hcache, _, Prod.ext hanswer rfl, (hends.of_outcome (Prod.ext hanswer rfl)).1⟩

end WriteCall

end FactIndex
