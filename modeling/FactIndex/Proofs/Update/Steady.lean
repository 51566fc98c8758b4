import FactIndex.Proofs.Queue.Load
import FactIndex.Proofs.Update.Decided

/-!
# A queue of jobs

A queue into which only jobs were put holds each of them under a name of its own, until the message that
carries it has been run. Running a message takes it away, and puts back at most the job that it carried,
for later and with one more retry.

## Main definitions

* `World.load?`, `World.waits?`: what the queue holds under a name, and when it can be seen.
* `World.IsSteady`: the queue holds nothing but jobs.
* `Deployment.Ends`: what running a message comes to.
* `Deployment.meets_runMessage_ends`: every run of a message of a steady queue comes to that.
-/

namespace FactIndex

open FactIndex.Effect FactIndex.KeyValue

variable {σ α : Type}

/-! ## Jobs that are stored -/

namespace Deployment

variable (d : Deployment σ)

/-- The time of a job is read back from the text of its message. In memory nothing has to be. -/
def CanStore (job : Job) : Prop := d.queue.storage ≠ .memory →
  ∀ x, job.createdAt = some x → Json.ReadsFloat Json.Style.stored.floats x

/-- What is put into the queue at a time is read back. In memory nothing has to be. -/
def ReadsTime (now : Float) : Prop := d.queue.storage ≠ .memory →
  ∀ x ∈ [now, now + 0, now + d.settings.retry.delaySeconds],
    Json.ReadsFloat Json.Style.stored.floats x

variable {d}

theorem CanStore.unspent {job : Job} (h : d.CanStore job) : d.CanStore job.unspent := h

theorem CanStore.again {job : Job} {now : Float} (h : d.CanStore job) (hnow : d.ReadsTime now) :
    d.CanStore (job.again now) := by
  intro hserver x hx
  have htime := hnow hserver now List.mem_cons_self
  have hold := h hserver
  unfold Job.again at hx
  cases hcreated : job.createdAt with
  | none =>
      simp only [hcreated, Option.some.injEq] at hx
      exact hx ▸ htime
  | some t =>
      simp only [hcreated, Option.some.injEq] at hx
      split at hx
      · exact hx ▸ htime
      · exact hx ▸ hold t hcreated

end Deployment

section

open Json

variable {style : Style} {depth : Nat}

/-- Jobs that are carried alike are the same. -/
theorem Job.toMessage_injective : Function.Injective Job.toMessage := fun job job' h =>
  Except.ok.inj ((Job.ofMessage_toMessage job).symm.trans ((congrArg _ h).trans (Job.ofMessage_toMessage job')))

theorem Job.isReadable_toJson {job : Job}
    (h : ∀ x, job.createdAt = some x → ReadsFloat style.floats x) :
    IsReadable style (depth + 2) job.toJson := by
  have hkeys : ["delete", "is_concept", "create", "replicate", "retry_count", "created_at",
    "origin"].Nodup := by decide
  have hdelete : IsReadable style (depth + 1) ((job.delete.map Json.ofInts).getD .null) := by
    cases job.delete with
    | none => exact .null
    | some ids =>
        refine .arr fun j hj => ?_
        obtain ⟨n, -, rfl⟩ := List.mem_map.mp hj
        exact .int n
  have hcreated : IsReadable style (depth + 1) (ofFloat? job.createdAt) := by
    cases hjob : job.createdAt with
    | none => exact .null
    | some x => exact .float (h x hjob)
  refine .obj hkeys ?_
  simp only [List.forall_mem_cons]
  exact ⟨hdelete, .bool _, isReadable_ofText? _, isReadable_ofText? _, .int _, hcreated, .str _,
    List.forall_mem_nil _⟩

/-- The message of a job is read back from its stored text. -/
theorem Queue.keeps_toMessage {job : Job} {m : Message} (hvalue : m.value = job.toMessage)
    (hmetadata : m.metadata = .null)
    (hjob : ∀ x, job.createdAt = some x → ReadsFloat Style.stored.floats x)
    (henqueued : ReadsFloat Style.stored.floats m.enqueued)
    (havailable : ReadsFloat Style.stored.floats m.available) : Queue.Keeps m := by
  intro deliveries
  have hkeys : ["id", "value", "metadata", "enqueued_time", "available_time", "delivery_count"].Nodup := by
    decide
  have hmessage : IsReadable .stored 989 job.toMessage := by
    have hmembers : ["type", "params"].Nodup := by decide
    refine .obj hmembers ?_
    simp only [List.forall_mem_cons]
    exact ⟨.str _, Job.isReadable_toJson hjob, List.forall_mem_nil _⟩
  have hread : IsReadable .stored argumentDepth { m with deliveries }.recordJson := by
    refine .obj hkeys ?_
    simp only [List.forall_mem_cons, hvalue, hmetadata]
    exact ⟨.str _, hmessage, .null, .float henqueued, .float havailable, .int _, List.forall_mem_nil _⟩
  unfold Queue.readRecord Message.record
  rw [parse?_print Style.isPlain_stored hread]
  exact Message.ofRecordJson?_recordJson _

end

/-! ## A queue of jobs -/

namespace World

/-- What a queue of jobs depends on: what it holds, whether it can be reached, the time, and how many names
have been given. -/
def bearing (d : Deployment σ) (w : World σ) : Queue.Contents × Bool × Float × Nat :=
  (w.queued d, d.queue.isConnected (w.queue, w.host), w.host.network.standing)

/-- What the queue holds under a name. -/
def load? (d : Deployment σ) (w : World σ) : String → Option Load := (w.queued d).load?

/-- When a message of the queue that is ready can be seen. -/
def waits? (d : Deployment σ) (w : World σ) : String → Option Float := (w.queued d).waits?

/-- The queue can be reached and holds nothing but jobs, each once and under a name that has been given. -/
structure IsSteady (d : Deployment σ) (w : World σ) : Prop where
  tidy : (w.queued d).IsTidy
  isConnected : d.queue.isConnected (w.queue, w.host) = true
  named : ∀ id, w.load? d id ≠ none → ∃ k ≤ w.host.network.issued, id = Network.nameOf k
  job : ∀ id l, w.load? d id = some l → ∃ job : Job, l.value = job.toMessage ∧ d.CanStore job

/-- The name that the next message gets. -/
def nextName (w : World σ) : String := Network.nameOf (w.host.network.issued + 1)

variable {d : Deployment σ} {w w' : World σ}

theorem bearing_of_backdrop (h : w'.backdrop d = w.backdrop d) : w'.bearing d = w.bearing d := by
  have hqueued := queued_congr h
  simp only [backdrop, footing, Prod.mk.injEq] at h
  unfold bearing Queue.isConnected
  rw [hqueued, h.1.1, h.2]

/-- The next name is new to a steady queue. -/
theorem IsSteady.load?_nextName (h : w.IsSteady d) : w.load? d w.nextName = none := by
  by_contra hsome
  obtain ⟨k, hk, hname⟩ := h.named _ hsome
  have hsame := Network.nameOf_injective hname
  omega

theorem IsSteady.isNew (h : w.IsSteady d) : w.host.network.issue.1 ∉ (w.queued d).names := by
  rw [h.tidy.mem_names, Ne, Decidable.not_not]
  exact h.load?_nextName

theorem IsSteady.congr (h : w.IsSteady d) (hqueued : w'.queued d = w.queued d)
    (hconnected : d.queue.isConnected (w'.queue, w'.host) = d.queue.isConnected (w.queue, w.host))
    (hissued : w'.host.network.issued = w.host.network.issued) : w'.IsSteady d := by
  refine ⟨?_, hconnected.trans h.isConnected, ?_, ?_⟩
  · rw [hqueued]
    exact h.tidy
  · unfold load?
    rw [hqueued, hissued]
    exact h.named
  · unfold load?
    rw [hqueued]
    exact h.job

theorem IsSteady.of_bearing (h : w.IsSteady d) (heq : w'.bearing d = w.bearing d) : w'.IsSteady d := by
  simp only [bearing, Prod.mk.injEq] at heq
  exact h.congr heq.1 heq.2.1 (congrArg Prod.snd heq.2.2)

/-- The message that carries a job as it is put back, or put off. -/
def jobMessage (w : World σ) (job : Job) (delay : Option Float) : Message :=
  Queue.nextMessage w.host.network job.toMessage delay

/-- The queue has one message more, which carries a job. -/
def Adds (d : Deployment σ) (w : World σ) (job : Job) (delay : Option Float) (after : World σ) : Prop :=
  after.bearing d = ((w.queued d).add (w.jobMessage job delay), true, w.host.network.now,
    w.host.network.issued + 1)

theorem Adds.congr {job : Job} {delay : Option Float} {after : World σ} (h : w'.Adds d job delay after)
    (heq : w'.bearing d = w.bearing d) : w.Adds d job delay after := by
  simp only [bearing, Prod.mk.injEq] at heq
  have hmessage : w'.jobMessage job delay = w.jobMessage job delay :=
    congrFun (congrFun (Queue.nextMessage_congr heq.2.2) _) _
  have hstanding := heq.2.2
  simp only [Network.standing, Prod.mk.injEq] at hstanding
  unfold Adds at h ⊢
  rw [h, heq.1, hmessage, hstanding.1, hstanding.2]

/-- What is held when there is one job more. -/
theorem Adds.load? {job : Job} {delay : Option Float} (h : w.Adds d job delay w') (hs : w.IsSteady d)
    (hjob : d.CanStore job)
    (htime : d.queue.storage ≠ .memory → Json.ReadsFloat Json.Style.stored.floats w.host.network.now ∧
      Json.ReadsFloat Json.Style.stored.floats (w.jobMessage job delay).available) :
    w'.IsSteady d ∧
      (∀ id, w'.load? d id = if w.nextName = id then some (w.jobMessage job delay).load
        else w.load? d id) ∧
      ∀ id, w'.waits? d id = if w.nextName = id then some (w.jobMessage job delay).available
        else w.waits? d id := by
  have hkeeps : (w.queued d).Keeps (w.jobMessage job delay) := by
    unfold World.queued Queue.contents Queue.Contents.Keeps
    cases hstorage : d.queue.storage with
    | memory => trivial
    | server address =>
        have hserver : d.queue.storage ≠ .memory := by simp [hstorage]
        exact Queue.keeps_toMessage rfl rfl (hjob hserver) (htime hserver).1 (htime hserver).2
  obtain ⟨htidy, hload, hwaits⟩ := hs.tidy.add hs.isNew rfl hkeeps
  simp only [Adds, bearing, Prod.mk.injEq] at h
  rw [← h.1] at htidy hload hwaits
  have hload : ∀ id, w'.load? d id = if w.nextName = id then some (w.jobMessage job delay).load
      else w.load? d id := hload
  have hissued : w'.host.network.issued = w.host.network.issued + 1 := congrArg Prod.snd h.2.2
  refine ⟨⟨htidy, h.2.1, fun id hid => ?_, fun id l hl => ?_⟩, hload, hwaits⟩
  · rw [hissued]
    rw [hload] at hid
    by_cases heq : w.nextName = id
    · exact ⟨_, Nat.le_refl _, heq.symm⟩
    · rw [if_neg heq] at hid
      obtain ⟨k, hk, hname⟩ := hs.named id hid
      exact ⟨k, by omega, hname⟩
  · rw [hload] at hl
    by_cases heq : w.nextName = id
    · rw [if_pos heq, Option.some.injEq] at hl
      exact ⟨job, hl ▸ rfl, hjob⟩
    · rw [if_neg heq] at hl
      exact hs.job id l hl

end World

/-! ## Running a message -/

/-- Whether a job has been put off: put back, or given up. -/
def JobStatus.isPutOff : JobStatus → Bool
  | .requeued | .givenUp => true
  | _ => false

variable {d : Deployment σ} {w : World σ}

namespace Deployment

theorem isAside_bearing : d.IsAside (World.bearing d) where
  ask r w := World.bearing_of_backdrop (isAside_backdrop.ask r w)
  has key w := World.bearing_of_backdrop (isAside_backdrop.has key w)
  get key w := World.bearing_of_backdrop (isAside_backdrop.get key w)
  number item w := World.bearing_of_backdrop (isAside_backdrop.number item w)

/-- A job can be put into a steady queue. -/
theorem outcome_enqueue_adds (h : w.IsSteady d) (job : Job) (delay : Option Float) : ∃ m after,
    (d.enqueue job delay).outcome w = (.ok m, after) ∧ w.Adds d job delay after ∧
      after.sight d = w.sight d := by
  obtain ⟨after, houtcome, hqueued, -, hsight, -, hstanding, hconnected⟩ :=
    outcome_enqueue_add h.isConnected h.isNew job delay
  exact ⟨_, after, houtcome, congrArg₂ Prod.mk hqueued (congrArg₂ Prod.mk hconnected hstanding), hsight⟩

/-- How running a job ends: it is put back, for later and with one more retry, if it has not been put back
too often; or nothing is put into the queue, and it is given up only if it has. -/
def ComesTo (d : Deployment σ) (w : World σ) (job : Job) (r : Except Failure JobStatus) (after : World σ) :
    Prop :=
  after.sight d = w.sight d ∧
    match r with
    | .ok .requeued => job.retries < d.settings.retry.retries ∧
        w.Adds d (job.again w.host.network.now) (some d.settings.retry.delaySeconds) after
    | .ok .givenUp => d.settings.retry.retries ≤ job.retries ∧ after.bearing d = w.bearing d
    | _ => after.bearing d = w.bearing d

theorem ComesTo.congr {w' : World σ} {job : Job} {r : Except Failure JobStatus} {after : World σ}
    (h : d.ComesTo w' job r after) (heq : w'.backdrop d = w.backdrop d) : d.ComesTo w job r after := by
  have hbearing := World.bearing_of_backdrop heq
  have hnow : w'.host.network.now = w.host.network.now :=
    congrArg (fun bearing : Queue.Contents × Bool × Float × Nat => bearing.2.2.1) hbearing
  obtain ⟨hsight, hend⟩ := h
  refine ⟨hsight.trans (World.sight_congr heq), ?_⟩
  split at hend
  · rw [hnow] at hend
    exact ⟨hend.1, hend.2.congr hbearing⟩
  · exact ⟨hend.1, hend.2.trans hbearing⟩
  · exact hend.trans hbearing

theorem meets_requeue (h : w.IsSteady d) (job : Job) : (d.requeue job).Meets w fun r after =>
    d.ComesTo w job r after ∧ ∃ status : JobStatus, status.isPutOff = true ∧ r = .ok status := by
  unfold requeue
  split
  · rename_i hspent
    exact Meets.pure ⟨⟨rfl, hspent, rfl⟩, .givenUp, rfl, rfl⟩
  · rename_i hroom
    obtain ⟨m, after, hput, hadds, hsight⟩ := outcome_enqueue_adds h
      (job.again w.host.network.now) (some d.settings.retry.delaySeconds)
    have hnow : (currentTime : Action σ Float).outcome w = (.ok w.host.network.now, w) := rfl
    exact Meets.bind_of_ok hnow (Meets.bind_of_ok hput
      (Meets.pure ⟨⟨hsight, by omega, hadds⟩, .requeued, rfl, rfl⟩))

theorem meets_work_steady (h : w.IsSteady d) (job : Job) (locked : Bool) :
    (d.work job locked).Meets w fun r after => d.ComesTo w job r after ∧
      (locked = true → ∃ status : JobStatus, status.isPutOff = true ∧ r = .ok status) := by
  have hback : ∀ t : World σ, t.backdrop d = w.backdrop d → (d.requeue job).Meets t fun r after =>
      d.ComesTo w job r after ∧
        (locked = true → ∃ status : JobStatus, status.isPutOff = true ∧ r = .ok status) := fun t ht =>
    (meets_requeue (h.of_bearing (World.bearing_of_backdrop ht)) job).mono fun r after ⟨hend, hstatus⟩ =>
      ⟨hend.congr ht, fun _ => hstatus⟩
  unfold work
  cases locked with
  | true => exact hback w rfl
  | false =>
      have hping : d.ping.Meets w fun _ t => t.backdrop d = w.backdrop d :=
        leaves_ping (isAside_backdrop.ask _) w
      refine hping.bind (fun reachable t ht => ?_) fun e t ht =>
        ⟨⟨World.sight_congr ht, World.bearing_of_backdrop ht⟩, nofun⟩
      cases reachable with
      | false => exact hback t ht
      | true =>
          have hreplay : (Effect.attempt (d.replay job)).Meets t fun r after =>
              (∃ done, r = .ok done) ∧ after.backdrop d = w.backdrop d :=
            ⟨⟨_, rfl⟩, (isAside_backdrop.replay job t).trans ht⟩
          refine hreplay.bind ?_ fun e after ⟨⟨_, hdone⟩, _⟩ => nomatch hdone
          rintro done after ⟨_, hafter⟩
          split
          · exact Meets.pure ⟨⟨World.sight_congr hafter, World.bearing_of_backdrop hafter⟩, nofun⟩
          · exact hback after hafter
          · exact ⟨⟨World.sight_congr hafter, World.bearing_of_backdrop hafter⟩, nofun⟩

/-- The job that is run from a message: during a rebuild it is as if it had never been put back. -/
def resumed (locked : Bool) (job : Job) : Job := if locked then job.unspent else job

/-- Running a job that a steady queue held. -/
theorem meets_runJob_steady (h : w.IsSteady d) (job : Job) {locked : Bool}
    (hlocked : ((d.isLocked IndexType.data).outcome w).1 = .ok locked) :
    (d.runJob job).Meets w fun r after => ∃ run, r = .ok run ∧
      d.ComesTo w (resumed locked job) run.outcome after ∧
      (locked = true → ∃ status : JobStatus, status.isPutOff = true ∧ run.outcome = .ok status) := by
  have hlooked := isAside_backdrop.isLocked (d := d) IndexType.data w
  have hattempt : ((Effect.attempt (d.isLocked IndexType.data)).outcome w).1 = .ok (.ok locked) := by
    rw [outcome_attempt, hlocked]
  refine Meets.bind_of_answer hattempt ?_
  dsimp only [outcome_attempt]
  generalize ((d.isLocked IndexType.data).outcome w).2 = looked at hlooked ⊢
  have hwork := meets_work_steady (h.of_bearing (World.bearing_of_backdrop hlooked))
    (resumed locked job) locked
  have hattempted : (Effect.attempt (d.work (resumed locked job) locked)).Meets looked fun r after =>
      ∃ done, r = .ok done ∧ d.ComesTo w (resumed locked job) done after ∧
        (locked = true → ∃ status : JobStatus, status.isPutOff = true ∧ done = .ok status) :=
    ⟨_, rfl, ComesTo.congr hwork.1 hlooked, hwork.2⟩
  refine hattempted.bind ?_ fun e after ⟨_, hdone, _⟩ => nomatch hdone
  rintro _ after ⟨done, ⟨⟩, hend⟩
  exact Meets.pure ⟨_, rfl, hend⟩

/-- A message in flight is acknowledged: it is held no more, and nothing else changes. -/
theorem outcome_acknowledge_steady (h : w.IsSteady d) {m : Message} (hid : m.id ∈ w.inFlight d) :
    ∃ after, (d.acknowledge m).outcome w = (.ok (), after) ∧ after.IsSteady d ∧
      after.sight d = w.sight d ∧ after.host.network.standing = w.host.network.standing ∧
      (∀ id, after.load? d id = if m.id = id then none else w.load? d id) ∧
      after.waits? d = w.waits? d ∧ after.inFlight d = (w.inFlight d).filter (· ≠ m.id) := by
  obtain ⟨site, hack, hconnected, htidy, hload, hwaits, hflight⟩ :=
    Queue.outcome_ack_tidy h.tidy h.isConnected hid
  have houtcome : (d.acknowledge m).outcome w = _ := outcome_onQueue hack
  have hsight := leaves_sight_onQueue (d := d) (d.queue.leaves_ack (.str m.id)) w
  have hstanding := d.queue.leaves_standing_ack (.str m.id) (w.queue, w.host)
  unfold acknowledge at houtcome
  rw [houtcome] at hsight
  rw [hack] at hstanding
  have hissued : site.2.network.issued = w.host.network.issued := congrArg Prod.snd hstanding
  refine ⟨_, houtcome, ⟨htidy, hconnected, fun id hid => ?_, fun id l hl => ?_⟩, hsight, hstanding, hload,
    hwaits, hflight⟩
  · obtain ⟨k, hk, hname⟩ := h.named id fun hnone => hid ((hload id).trans (by
      rw [show (d.queue.contents (w.queue, w.host)).load? id = none from hnone, ite_self]))
    exact ⟨k, hissued ▸ hk, hname⟩
  · have hheld := (hload id).symm.trans hl
    split at hheld
    · cases hheld
    · exact h.job id l hheld

/-- The message is held no more, and nothing has been put into the queue. -/
structure Drops (d : Deployment σ) (w : World σ) (m : Message) (after : World σ) : Prop where
  issued : after.host.network.issued = w.host.network.issued
  load? : ∀ id, after.load? d id = if m.id = id then none else w.load? d id
  waits? : after.waits? d = w.waits? d

/-- The message is held no more, and instead of it there is one that carries the job for later, with one
more retry. -/
structure Renews (d : Deployment σ) (w : World σ) (m : Message) (job : Job) (after : World σ) : Prop where
  room : job.retries < d.settings.retry.retries
  issued : after.host.network.issued = w.host.network.issued + 1
  load? : ∀ id, after.load? d id = if w.nextName = id then
    some ⟨(job.again w.host.network.now).toMessage, w.host.network.now,
      w.host.network.now + d.settings.retry.delaySeconds⟩
    else if m.id = id then none else w.load? d id
  waits? : ∀ id, after.waits? d id = if w.nextName = id then
    some (w.host.network.now + d.settings.retry.delaySeconds) else w.waits? d id

/-- The message is out of flight, and jobs see what they saw before. -/
structure Closes (d : Deployment σ) (w : World σ) (m : Message) (after : World σ) : Prop where
  steady : after.IsSteady d
  sight : after.sight d = w.sight d
  now : after.host.network.now = w.host.network.now
  inFlight : after.inFlight d = (w.inFlight d).filter (· ≠ m.id)

/-- What running a message of a steady queue comes to. -/
structure Ends (d : Deployment σ) (w : World σ) (m : Message) (job : Job)
    (r : Except Failure (Option JobStatus)) (after : World σ) : Prop extends d.Closes w m after where
  course : match r with
    | .ok (some .requeued) => d.Renews w m job after
    | .ok (some .givenUp) => d.settings.retry.retries ≤ job.retries ∧ d.Drops w m after
    | _ => d.Drops w m after

variable {m : Message} {job : Job} {ran : World σ}

/-- The message is held no more, what is held under other names is left alone, and nothing is held anew but
under the next name. -/
structure Spares (d : Deployment σ) (w : World σ) (m : Message) (after : World σ) : Prop where
  issued : w.host.network.issued ≤ after.host.network.issued
  gone : m.id ≠ w.nextName → after.load? d m.id = none
  load? : ∀ id, id ≠ w.nextName → id ≠ m.id → after.load? d id = w.load? d id
  held : ∀ id, id ≠ w.nextName → after.load? d id ≠ none → w.load? d id ≠ none
  waits? : ∀ id, id ≠ w.nextName → after.waits? d id = w.waits? d id

theorem Drops.spares {after : World σ} (h : d.Drops w m after) : d.Spares w m after where
  issued := h.issued.ge
  gone _ := by rw [h.load?, if_pos rfl]
  load? id _ hne := by rw [h.load?, if_neg hne.symm]
  held id _ hheld hnone := by
    rw [h.load?, hnone, ite_self] at hheld
    exact hheld rfl
  waits? id _ := congrFun h.waits? id

theorem Renews.spares {after : World σ} (h : d.Renews w m job after) : d.Spares w m after where
  issued := by
    rw [h.issued]
    exact Nat.le_succ _
  gone hnew := by rw [h.load?, if_neg hnew.symm, if_pos rfl]
  load? id hnew hne := by rw [h.load?, if_neg hnew.symm, if_neg hne.symm]
  held id hnew hheld hnone := by
    rw [h.load?, if_neg hnew.symm, hnone, ite_self] at hheld
    exact hheld rfl
  waits? id hnew := by rw [h.waits?, if_neg hnew.symm]

theorem Ends.spares {r : Except Failure (Option JobStatus)} {after : World σ} (h : d.Ends w m job r after) :
    d.Spares w m after := by
  obtain ⟨-, hcourse⟩ := h
  split at hcourse
  · exact hcourse.spares
  · exact hcourse.2.spares
  · exact hcourse.spares

theorem acknowledge_dropped (hs : w.IsSteady d) (hid : m.id ∈ w.inFlight d) (hsight : ran.sight d = w.sight d)
    (h : ran.bearing d = w.bearing d) : ∃ after,
      (d.acknowledge m).outcome ran = (.ok (), after) ∧ d.Closes w m after ∧ d.Drops w m after := by
  have hran := hs.of_bearing h
  simp only [World.bearing, Prod.mk.injEq] at h
  obtain ⟨hqueued, -, hstanding⟩ := h
  have hflight : ran.inFlight d = w.inFlight d := by
    unfold World.inFlight
    rw [← Queue.inFlight_contents, ← Queue.inFlight_contents]
    exact congrArg Queue.Contents.inFlight hqueued
  obtain ⟨after, hack, hsteady, hsight', hstanding', hload, hwaits, hflight'⟩ :=
    outcome_acknowledge_steady hran (hflight ▸ hid)
  have hboth := hstanding'.trans hstanding
  refine ⟨after, hack, ⟨hsteady, hsight'.trans hsight, congrArg Prod.fst hboth, hflight ▸ hflight'⟩,
    congrArg Prod.snd hboth, fun id => (hload id).trans ?_, hwaits.trans ?_⟩
  · unfold World.load?
    rw [hqueued]
  · unfold World.waits?
    rw [hqueued]

theorem acknowledge_renewed (hs : w.IsSteady d) (htime : d.ReadsTime w.host.network.now)
    (hjob : d.CanStore job) (hid : m.id ∈ w.inFlight d) (hheld : w.load? d m.id ≠ none)
    (hsight : ran.sight d = w.sight d) (hroom : job.retries < d.settings.retry.retries)
    (h : w.Adds d (job.again w.host.network.now) (some d.settings.retry.delaySeconds) ran) : ∃ after,
      (d.acknowledge m).outcome ran = (.ok (), after) ∧ d.Closes w m after ∧ d.Renews w m job after := by
  obtain ⟨hran, hload, hwaits⟩ := h.load? hs (hjob.again htime) fun hserver =>
    ⟨htime hserver _ (by simp), htime hserver _ (by simp [World.jobMessage, Queue.nextMessage])⟩
  simp only [World.Adds, World.bearing, Prod.mk.injEq] at h
  obtain ⟨hqueued, -, hstanding⟩ := h
  have hflight : ran.inFlight d = w.inFlight d := by
    unfold World.inFlight
    rw [← Queue.inFlight_contents, ← Queue.inFlight_contents]
    exact (congrArg Queue.Contents.inFlight hqueued).trans (Queue.Contents.inFlight_add _ _)
  have hnew : w.nextName ≠ m.id := fun heq => hheld (heq ▸ hs.load?_nextName)
  obtain ⟨after, hack, hsteady, hsight', hstanding', hload', hwaits', hflight'⟩ :=
    outcome_acknowledge_steady hran (hflight ▸ hid)
  have hboth := hstanding'.trans hstanding
  refine ⟨after, hack, ⟨hsteady, hsight'.trans hsight, congrArg Prod.fst hboth, hflight ▸ hflight'⟩,
    hroom, congrArg Prod.snd hboth, fun id => ?_, fun id => ?_⟩
  · rw [hload', hload]
    by_cases hname : w.nextName = id
    · rw [if_pos hname, if_neg fun heq => hnew (hname.trans heq.symm), if_pos hname]
      rfl
    · rw [if_neg hname, if_neg hname]
  · rw [hwaits', hwaits]
    rfl

/-- Every run of a message of a steady queue takes it away, and puts back at most its job. -/
theorem meets_runMessage_ends (hs : w.IsSteady d) (htime : d.ReadsTime w.host.network.now)
    (hvalue : m.value = job.toMessage) (hid : m.id ∈ w.inFlight d)
    (hheld : w.load? d m.id = some m.load) {locked : Bool}
    (hlocked : ((d.isLocked IndexType.data).outcome w).1 = .ok locked) :
    (d.runMessage m).Meets w fun r after => d.Ends w m (resumed locked job) r after ∧
      (locked = true → ∃ status : JobStatus, status.isPutOff = true ∧ r = .ok (some status)) := by
  have hsome : w.load? d m.id ≠ none := by simp [hheld]
  have hjob : d.CanStore (resumed locked job) := by
    obtain ⟨stored, hstored, hcan⟩ := hs.job _ _ hheld
    cases Job.toMessage_injective (hvalue.symm.trans hstored)
    cases locked with
    | true => exact hcan.unspent
    | false => exact hcan
  unfold runMessage
  rw [hvalue, Job.ofMessage_toMessage]
  refine (meets_runJob_steady hs job hlocked).bind ?_ fun e after ⟨_, hrun, _⟩ => nomatch hrun
  rintro _ ran ⟨run, ⟨⟩, ⟨hsight, hend⟩, hstatus⟩
  split at hend
  · rename_i houtcome
    obtain ⟨after, hack, hcloses, hrenews⟩ :=
      acknowledge_renewed hs htime hjob hid hsome hsight hend.1 hend.2
    refine Meets.bind_of_ok hack ?_
    rw [houtcome]
    exact ⟨⟨hcloses, hrenews⟩, fun _ => ⟨.requeued, rfl, rfl⟩⟩
  · rename_i houtcome
    obtain ⟨after, hack, hcloses, hdrops⟩ := acknowledge_dropped hs hid hsight hend.2
    refine Meets.bind_of_ok hack ?_
    rw [houtcome]
    exact ⟨⟨hcloses, hend.1, hdrops⟩, fun _ => ⟨.givenUp, rfl, rfl⟩⟩
  · rename_i hback hover
    have hfree : locked ≠ true := by
      intro hlocked
      obtain ⟨status, hoff, hstatus⟩ := hstatus hlocked
      cases status with
      | requeued => exact hback hstatus
      | givenUp => exact hover hstatus
      | _ => cases hoff
    obtain ⟨after, hack, hcloses, hdrops⟩ := acknowledge_dropped hs hid hsight hend
    refine Meets.bind_of_ok hack ?_
    split
    · rename_i status hstatus
      refine Meets.pure ⟨⟨hcloses, ?_⟩, fun hlocked => absurd hlocked hfree⟩
      cases status with
      | requeued => exact absurd hstatus hback
      | givenUp => exact absurd hstatus hover
      | _ => exact hdrops
    · exact Meets.pure ⟨⟨hcloses, hdrops⟩, fun hlocked => absurd hlocked hfree⟩
    · exact ⟨⟨hcloses, hdrops⟩, fun hlocked => absurd hlocked hfree⟩

end Deployment

end FactIndex
