import FactIndex.Proofs.Update.Sight

/-!
# Jobs that can be read

A job names entities by their hashes. Where the hashes can be read, and the change that is kept for an
entity can be, the job only fails because of the search engine: it is put back, or it is refused. Where
they cannot be read the job is stopped, unless a rebuild is going on.

## Main definitions

* `Job.IsLegible`: what a job needs can be read.
* `Failure.isOfEngine`: the failures that the search engine is the cause of.
* `Deployment.meets_runJob_outlook`: running a job leaves the queue as it is, and how it ends.
* `Deployment.runJob_of_not_isLegible`: a job that cannot be read is stopped.
-/

namespace FactIndex

open FactIndex.Effect FactIndex.KeyValue

variable {σ α : Type} {d : Deployment σ} {w w' : World σ}

/-! ## Jobs that can be read -/

/-- The change that is kept for an entity, as far as it can be read from what the cache serves. -/
def Deployment.keptChange (d : Deployment σ) (served : String → Option Json) (e : Entity) :
    Except Failure (Option Change) := do
  match served (← d.cache.fullKey (.str (Change.key e))) with
  | none => return none
  | some content => some <$> (Change.read (← d.cache.readBack content)).toExcept

/-- The hashes of a job can be read, and so can the change that is kept for it, if there is one. -/
structure Job.IsLegible (d : Deployment σ) (w : World σ) (job : Job) : Prop where
  create : ∀ hash, job.create = some hash → ∃ e, Entity.ofHash hash = .ok e
  replicate : ∀ hash, job.replicate = some hash → ∃ e change, Entity.ofHash hash = .ok e ∧
    d.keptChange (w.surroundings d).2.served e = .ok change

theorem Job.IsLegible.of_sight {job : Job} (h : job.IsLegible d w) (heq : w'.sight d = w.sight d) :
    job.IsLegible d w' := by
  have hserved : (w'.surroundings d).2.served = (w.surroundings d).2.served := congrArg Prod.fst heq
  refine ⟨h.create, ?_⟩
  rw [hserved]
  exact h.replicate

theorem Deployment.fetchChange_fst (hlink : w.IsLinked d) (e : Entity) :
    ((d.fetchChange e).outcome w).1 = d.keptChange (w.surroundings d).2.served e := by
  obtain ⟨full, hfull⟩ := d.cache.exists_fullKey (Change.key e)
  unfold Deployment.keptChange
  rw [hfull]
  show _ = (match (w.surroundings d).2.served full with
    | none => (pure none : Except Failure (Option Change))
    | some content => do some <$> (Change.read (← d.cache.readBack content)).toExcept)
  unfold Deployment.fetchChange
  rw [outcome_bind]
  have hcached := Deployment.cached_eq hlink hfull
  rcases hr : (d.cached? (.str (Change.key e))).outcome w with ⟨r, t⟩
  rw [hr] at hcached
  change r = _ at hcached
  rw [hcached]
  cases (w.surroundings d).2.served full with
  | none => rfl
  | some content =>
      dsimp only
      cases d.cache.readBack content with
      | error e => rfl
      | ok value =>
          show ((some <$> Effect.ofExcept (Change.read value).toExcept : Action σ _).outcome t).1 =
            some <$> (Change.read value).toExcept
          rw [outcome_map, outcome_ofExcept]
          rfl

/-! ## Failures of the engine -/

/-- Failures that come from the search engine. -/
def Failure.isOfEngine : Failure → Bool
  | .unavailable _ => true
  | .client (.refused _ _ _) => true
  | _ => false

/-- A client that answers what is written with an object. -/
def SearchClient.AnswersObjects (client : SearchClient σ) : Prop :=
  ∀ operations s answer t, client.send (.bulk operations) s = (.ok answer, t) → ∃ ms, answer = .obj ms

/-- A computation that only fails because of the search engine. -/
def Effect.FailsByEngine (x : Action σ α) (w : World σ) : Prop :=
  x.Meets w fun r _ => ∀ e, r = .error e → e.isOfEngine = true

theorem Effect.FailsByEngine.bind {β : Type} {x : Action σ α} {f : α → Action σ β}
    (hx : FailsByEngine x w) (hf : ∀ a t, x.outcome w = (.ok a, t) → FailsByEngine (f a) t) :
    FailsByEngine (x >>= f) w := by
  unfold FailsByEngine Meets at hx ⊢
  rw [outcome_bind]
  rcases h : x.outcome w with ⟨e | a, t⟩
  · rw [h] at hx
    exact fun e' he' => hx e' (by cases he'; rfl)
  · exact hf a t h

theorem Effect.FailsByEngine.of_answer {x : Action σ α} {a : α} (h : (x.outcome w).1 = .ok a) :
    FailsByEngine x w := by
  unfold FailsByEngine Meets
  rw [h]
  nofun

namespace Deployment

theorem isOfEngine_asFailure (e : ClientError) : (asFailure e).isOfEngine = true := by
  cases e <;> rfl

theorem failsByEngine_demand (r : Request) : FailsByEngine (d.demand r) w := by
  unfold FailsByEngine Meets
  rw [outcome_demand]
  intro e he
  rcases hsend : (d.client.send r w.engine).1 with e' | answer
  · rw [hsend] at he
    cases he
    exact isOfEngine_asFailure e'
  · rw [hsend] at he
    cases he

theorem failsByEngine_bulk (hclient : d.client.AnswersObjects) (operations : List Json) :
    FailsByEngine (d.bulk operations) w := by
  unfold bulk
  split
  · exact .of_answer rfl
  · refine (failsByEngine_demand _).bind fun answer t h => ?_
    rw [outcome_demand] at h
    rcases hsend : d.client.send (.bulk operations) w.engine with ⟨e | answer', engine⟩
    · rw [hsend] at h
      cases h
    · rw [hsend] at h
      cases h
      obtain ⟨ms, rfl⟩ := hclient operations _ _ _ hsend
      exact .of_answer rfl

theorem failsByEngine_indexEntity (e : Entity) : FailsByEngine (d.indexEntity e) w :=
  FailsByEngine.bind (.of_answer rfl) fun _ _ _ => (failsByEngine_demand _).bind fun _ _ _ =>
    .of_answer rfl

theorem failsByEngine_replicate (hclient : d.client.AnswersObjects) (hfree : w.IsFree d)
    (hlink : w.IsLinked d) (change : Change) : FailsByEngine (d.replicate change) w := by
  obtain ⟨looked, -, -, houtcome⟩ := outcome_replicate change hfree hlink
  unfold FailsByEngine Meets
  rw [houtcome]
  exact failsByEngine_bulk hclient _

theorem sight_of_leaves {x : Action σ α} (hx : Leaves (World.footing d) x) {r : Except Failure α}
    {t : World σ} (h : x.outcome w = (r, t)) : t.sight d = w.sight d := by
  have hfooting := hx w
  rw [h] at hfooting
  exact congrArg (fun footing => footing.2.2) hfooting

/-- Where no rebuild is going on, a job that can be read only fails because of the engine. -/
theorem failsByEngine_replay (hclient : d.client.AnswersObjects) (hfree : w.IsFree d)
    (hlink : w.IsLinked d) {job : Job} (h : job.IsLegible d w) : FailsByEngine (d.replay job) w := by
  have hdeletion : FailsByEngine (d.replayDeletion job) w := by
    unfold replayDeletion
    split
    · exact (failsByEngine_bulk hclient _).bind fun _ _ _ => .of_answer rfl
    · exact .of_answer rfl
  have hcreation : ∀ t : World σ, FailsByEngine (d.replayCreation job) t := by
    intro t
    unfold replayCreation
    split
    · rename_i hash hhash
      obtain ⟨e, he⟩ := h.create hash hhash
      rw [he]
      exact (FailsByEngine.of_answer rfl).bind fun _ _ _ => failsByEngine_indexEntity _
    · exact .of_answer rfl
  have hchange : ∀ t : World σ, t.sight d = w.sight d → FailsByEngine (d.replayChange job) t := by
    intro t ht
    unfold replayChange
    split
    · rename_i hash hhash
      obtain ⟨e, change, he, hkept⟩ := (h.of_sight ht).replicate hash hhash
      rw [he]
      have hfetch := (fetchChange_fst (hlink.of_sight ht) e).trans hkept
      refine (FailsByEngine.of_answer rfl).bind fun _ _ hsame => ?_
      cases hsame
      refine (FailsByEngine.of_answer hfetch).bind fun kept u hu => ?_
      have hsight := (sight_of_leaves (leaves_fetchChange (isAside_footing.get _)) hu).trans ht
      split
      · exact (failsByEngine_replicate hclient (hfree.of_sight hsight) (hlink.of_sight hsight) _).bind
          fun _ _ _ => .of_answer rfl
      · exact .of_answer rfl
    · exact .of_answer rfl
  rw [replay_eq]
  refine hdeletion.bind fun _ t ht => (hcreation t).bind fun _ u hu => hchange u ?_
  exact (sight_of_leaves (isAside_footing.replayCreation job) hu).trans
    (sight_of_leaves (isAside_footing.replayDeletion job) ht)

end Deployment

/-! ## One job -/

/-- The names of the messages in flight. -/
def World.inFlight (d : Deployment σ) (w : World σ) : List String := d.queue.inFlight (w.queue, w.host)

/-- What running a job leaves: the messages in flight, whether the queue can be reached, and what jobs
see. -/
def World.outlook (d : Deployment σ) (w : World σ) :
    List String × Bool × (String → Option Json) × Bool × Except Failure Bool :=
  (w.inFlight d, d.queue.isConnected (w.queue, w.host), w.sight d)

/-- A refusal, which fails a job for good. -/
def Failure.isRefusal : Failure → Bool
  | .client (.refused _ _ _) => true
  | _ => false

namespace Deployment

theorem leaves_outlook {x : Action σ α} (hx : Leaves (World.footing d) x) :
    Leaves (World.outlook d) x := by
  intro w
  have hfooting := hx w
  simp only [World.footing, Prod.mk.injEq] at hfooting
  obtain ⟨hqueue, hserver, hsight⟩ := hfooting
  unfold World.outlook World.inFlight Queue.inFlight Queue.isConnected
  rw [hqueue, hserver, hsight]

/-- An operation on the queue changes the queue and the host only. -/
theorem outcome_onQueue {x : Effect Queue.Site α} {r : Except Failure α} {site : Queue.Site}
    (h : x.outcome (w.queue, w.host) = (r, site)) :
    (onQueue x).outcome w = (r, { w with queue := site.1, host := site.2 }) := by
  unfold onQueue
  rw [outcome_onPart, h]

/-- A job can be put into a queue that can be reached. -/
theorem outcome_enqueue (hqueue : d.queue.isConnected (w.queue, w.host) = true) (job : Job)
    (delay : Option Float) : ∃ m after, (d.enqueue job delay).outcome w = (.ok m, after) ∧
      after.outlook d = w.outlook d := by
  obtain ⟨m, site, hput, hflight, hlink⟩ := Queue.outcome_put hqueue
    [("type", .str Job.messageType), ("params", job.toJson)] { delay }
  have houtcome : (d.enqueue job delay).outcome w = _ := outcome_onQueue hput
  have hsight := leaves_sight_onQueue (d := d) (d.queue.leaves_put job.toMessage .null { delay }) w
  unfold enqueue at houtcome
  rw [houtcome] at hsight
  refine ⟨m, _, houtcome, ?_⟩
  unfold World.outlook World.inFlight
  rw [hsight, hqueue]
  exact congrArg₂ Prod.mk hflight (congrArg (Prod.mk · _) hlink)

/-- A job is put back or given up. -/
theorem outcome_requeue (hqueue : d.queue.isConnected (w.queue, w.host) = true) (job : Job) :
    ∃ status after, (d.requeue job).outcome w = (.ok status, after) ∧
      after.outlook d = w.outlook d := by
  unfold requeue
  split
  · exact ⟨_, w, rfl, rfl⟩
  · obtain ⟨m, after, hput, houtlook⟩ := outcome_enqueue hqueue
      (job.again w.host.network.now) (some d.settings.retry.delaySeconds)
    have hnow : (currentTime : Action σ Float).outcome w = (.ok w.host.network.now, w) := rfl
    refine ⟨.requeued, after, ?_, houtlook⟩
    rw [outcome_bind_of_ok hnow, outcome_bind_of_ok hput]
    rfl

/-- Whether a rebuild is going on can be found out where the cache can be reached. -/
theorem isLocked_of_isLinked (hlink : w.IsLinked d) : ∃ locked,
    ((d.isLocked IndexType.data).outcome w).1 = .ok locked ∧ (locked = false ↔ w.IsFree d) := by
  obtain ⟨full, hfull⟩ := d.cache.exists_fullKey ("lock:" ++ d.indexName IndexType.data)
  have hhas : ((d.isLocked IndexType.data).outcome w).1 = .ok ((w.surroundings d).2.answers full) :=
    Cache.has_eq hlink hfull
  refine ⟨_, hhas, fun h other hother => ?_, fun h => h full hfull⟩
  cases hfull.symm.trans hother
  exact h

/-- Asking whether the engine is in reach fails only if that is refused. -/
theorem meets_ping_refusal : d.ping.Meets w fun r _ => ∀ e, r = .error e → e.isRefusal = true := by
  refine Meets.bind_of_ok (outcome_ask d .ping w) ?_
  split
  · exact nofun
  · intro e he
    cases he
    rfl
  · exact nofun

/-- Doing the write of a job fails because it is refused, or else because the job cannot be read. -/
theorem meets_work (hclient : d.client.AnswersObjects) (hlink : w.IsLinked d)
    (hqueue : d.queue.isConnected (w.queue, w.host) = true) (job : Job) {locked : Bool}
    (hlocked : locked = false → w.IsFree d) : (d.work job locked).Meets w fun r after =>
      after.outlook d = w.outlook d ∧ ∀ e, r = .error e →
        e.isRefusal = true ∨ w.IsFree d ∧ ¬ job.IsLegible d w := by
  have hput : ∀ t : World σ, t.outlook d = w.outlook d → (d.requeue job).Meets t fun r after =>
      after.outlook d = w.outlook d ∧ ∀ e, r = .error e →
        e.isRefusal = true ∨ w.IsFree d ∧ ¬ job.IsLegible d w := by
    intro t ht
    have hthere : d.queue.isConnected (t.queue, t.host) = true :=
      (congrArg (fun outlook => outlook.2.1) ht).trans hqueue
    obtain ⟨status, after, hrequeue, houtlook⟩ := outcome_requeue hthere job
    unfold Meets
    rw [hrequeue]
    exact ⟨houtlook.trans ht, nofun⟩
  unfold work
  cases locked with
  | true => exact hput w rfl
  | false =>
      have hfree := hlocked rfl
      have hping : d.ping.Meets w fun r t =>
          t.outlook d = w.outlook d ∧ ∀ e, r = .error e → e.isRefusal = true :=
        ⟨leaves_outlook (leaves_ping (isAside_footing.ask _)) w, meets_ping_refusal⟩
      refine hping.bind (fun reachable t ht => ?_) fun e t ht =>
        ⟨ht.1, fun e' he' => .inl (ht.2 e' (by cases he'; rfl))⟩
      cases reachable with
      | false => exact hput t ht.1
      | true =>
          have hsight : t.sight d = w.sight d := congrArg (fun outlook => outlook.2.2) ht.1
          have hreplay : (Effect.attempt (d.replay job)).Meets t fun r after => ∃ done, r = .ok done ∧
              after.outlook d = w.outlook d ∧ ∀ e, done = .error e →
                e.isOfEngine = true ∨ ¬ job.IsLegible d w := by
            refine ⟨_, rfl, (leaves_outlook (isAside_footing.replay job) t).trans ht.1, fun e he => ?_⟩
            by_cases hlegible : job.IsLegible d w
            · exact .inl (failsByEngine_replay hclient (hfree.of_sight hsight)
                (hlink.of_sight hsight) (hlegible.of_sight hsight) e he)
            · exact .inr hlegible
          refine hreplay.bind ?_ fun e after ⟨_, hdone, _⟩ => nomatch hdone
          rintro done after ⟨_, ⟨⟩, hafter, hfails⟩
          split
          · exact ⟨hafter, nofun⟩
          · exact hput after hafter
          · rename_i e hother
            refine ⟨hafter, fun e' he' => ?_⟩
            cases he'
            rcases hfails e rfl with hengine | hlegible
            · refine .inl ?_
              cases e with
              | unavailable text => exact absurd rfl (hother text)
              | client error =>
                  cases error with
                  | refused status error reason => rfl
                  | _ => cases hengine
              | _ => cases hengine
            · exact .inr ⟨hfree, hlegible⟩

/-- Running a job leaves the queue as it is, but for the job that is put back. -/
theorem meets_runJob_outlook (hclient : d.client.AnswersObjects) (hlink : w.IsLinked d)
    (hqueue : d.queue.isConnected (w.queue, w.host) = true) (job : Job) :
    (d.runJob job).Meets w fun r after => ∃ run, r = .ok run ∧ after.outlook d = w.outlook d ∧
      ∀ e, run.outcome = .error e → e.isRefusal = true ∨ w.IsFree d ∧ ¬ job.IsLegible d w := by
  obtain ⟨locked, hlocked, hfree⟩ := isLocked_of_isLinked hlink
  have hlooked := leaves_outlook (isAside_footing.isLocked (d := d) IndexType.data) w
  rcases hr : (d.isLocked IndexType.data).outcome w with ⟨r, looked⟩
  rw [hr] at hlocked hlooked
  cases hlocked
  have hattempt : (Effect.attempt (d.isLocked IndexType.data)).outcome w =
      (.ok (.ok locked), looked) := by
    rw [outcome_attempt, hr]
  have hsight : looked.sight d = w.sight d := congrArg (fun outlook => outlook.2.2) hlooked
  have hrun : ∀ job', (job.IsLegible d looked → job'.IsLegible d looked) →
      (do return ⟨job', ← Effect.attempt (d.work job' locked)⟩ : Action σ JobRun).Meets looked
        fun r after => ∃ run, r = .ok run ∧ after.outlook d = w.outlook d ∧
          ∀ e, run.outcome = .error e → e.isRefusal = true ∨ w.IsFree d ∧ ¬ job.IsLegible d w := by
    intro job' hsame
    obtain ⟨houtlook, hfails⟩ := meets_work hclient (hlink.of_sight hsight)
      ((congrArg (fun outlook => outlook.2.1) hlooked).trans hqueue) job'
      (fun h => (hfree.mp h).of_sight hsight)
    refine Meets.bind_of_ok rfl ⟨_, rfl, houtlook.trans hlooked, fun e he =>
      (hfails e he).imp_right ?_⟩
    rintro ⟨hstill, hillegible⟩
    exact ⟨hstill.of_sight hsight.symm, fun h => hillegible (hsame (h.of_sight hsight))⟩
  unfold runJob
  refine Meets.bind_of_ok hattempt ?_
  dsimp only
  split
  · exact hrun job.unspent fun h => ⟨h.create, h.replicate⟩
  · exact hrun job id

end Deployment

/-! ## An engine that stands in the way of nothing -/

/-- A client that answers every request with an object that is not empty. -/
def SearchClient.Obliges (client : SearchClient σ) : Prop :=
  ∀ r s, ∃ first rest t, client.send r s = (.ok (.obj (first :: rest)), t)

namespace Deployment

theorem ping_of_obliges (hclient : d.client.Obliges) : (d.ping.outcome w).1 = .ok true := by
  obtain ⟨first, rest, t, hsend⟩ := hclient .ping w.engine
  unfold ping
  rw [outcome_bind_of_ok (outcome_ask d .ping w), hsend]
  rfl

theorem demand_of_obliges (hclient : d.client.Obliges) (r : Request) :
    ∃ ms, ((d.demand r).outcome w).1 = .ok (.obj ms) := by
  obtain ⟨first, rest, t, hsend⟩ := hclient r w.engine
  rw [outcome_demand, hsend]
  exact ⟨_, rfl⟩

theorem bulk_of_obliges (hclient : d.client.Obliges) (operations : List Json) :
    ∃ report, ((d.bulk operations).outcome w).1 = .ok report := by
  unfold bulk
  split
  · exact ⟨_, rfl⟩
  · obtain ⟨ms, hms⟩ := demand_of_obliges (w := w) hclient (.bulk operations)
    rw [outcome_bind_of_answer hms]
    exact ⟨ms, rfl⟩

theorem replayDeletion_of_obliges (hclient : d.client.Obliges) (job : Job) :
    ((d.replayDeletion job).outcome w).1 = .ok () := by
  unfold replayDeletion
  split
  · rename_i ids _
    obtain ⟨report, hreport⟩ := bulk_of_obliges (w := w) hclient
      ((ids.map Json.int).flatMap (d.deleteLines job.isConcept))
    unfold deleteDocuments
    rw [outcome_bind_of_answer hreport]
    rfl
  · rfl

theorem indexEntity_of_obliges (hclient : d.client.Obliges) (e : Entity) :
    ((d.indexEntity e).outcome w).1 = .ok () := by
  have hnumber : ((numberOf (.entity e) : Action σ Int).outcome w).1 =
    .ok (w.catalog.number (.entity e)).1 := rfl
  unfold indexEntity
  rw [outcome_bind_of_answer hnumber]
  unfold storeDocument
  obtain ⟨ms, hms⟩ := demand_of_obliges
    (w := ((numberOf (.entity e) : Action σ Int).outcome w).2) hclient
    (.store (d.indexName IndexType.data) (toString (w.catalog.number (.entity e)).1)
      (.single "subject" e.subjectJson))
  rw [outcome_bind_of_answer hms]
  rfl

/-- What cannot be read is no failure of the engine. -/
theorem isOfEngine_ofHash {hash : String} {e : Failure} (h : Entity.ofHash hash = .error e) :
    e.isOfEngine = false := by
  unfold Entity.ofHash at h
  split at h
  · split at h
    · cases h
    · cases h
      rfl
  · cases h
    rfl

theorem isOfEngine_keptChange {served : String → Option Json} {subject : Entity} {e : Failure}
    (h : d.keptChange served subject = .error e) : e.isOfEngine = false := by
  obtain ⟨full, hfull⟩ := d.cache.exists_fullKey (Change.key subject)
  unfold keptChange at h
  rw [hfull] at h
  change (match served full with
    | none => (pure none : Except Failure (Option Change))
    | some content => do some <$> (Change.read (← d.cache.readBack content)).toExcept) = _ at h
  cases hserved : served full with
  | none =>
      rw [hserved] at h
      cases h
  | some content =>
      rw [hserved] at h
      rcases d.cache.readBack_cases content with ⟨value, hread⟩ | hread
      · simp only [hread] at h
        change some <$> (Change.read value).toExcept = _ at h
        cases hchange : Change.read value with
        | ok change =>
            rw [hchange] at h
            cases h
        | bad issues =>
            rw [hchange] at h
            cases h
            rfl
      · simp only [hread] at h
        cases h
        rfl

/-- A job that cannot be read fails for that reason. -/
theorem replay_of_not_isLegible (hclient : d.client.Obliges) (hlink : w.IsLinked d) {job : Job}
    (h : ¬ job.IsLegible d w) : ∃ e, ((d.replay job).outcome w).1 = .error e ∧ e.isOfEngine = false := by
  rw [replay_eq, outcome_bind_of_answer (replayDeletion_of_obliges hclient job)]
  have ht : ((d.replayDeletion job).outcome w).2.sight d = w.sight d :=
    sight_of_leaves (isAside_footing.replayDeletion job) rfl
  generalize ((d.replayDeletion job).outcome w).2 = t at ht ⊢
  by_cases hcreate : ∀ hash, job.create = some hash → ∃ e, Entity.ofHash hash = .ok e
  · have hcreation : ((d.replayCreation job).outcome t).1 = .ok () := by
      unfold replayCreation
      split
      · rename_i hash hhash
        obtain ⟨e, he⟩ := hcreate hash hhash
        rw [he]
        exact indexEntity_of_obliges hclient e
      · rfl
    rw [outcome_bind_of_answer hcreation]
    have hu : ((d.replayCreation job).outcome t).2.sight d = w.sight d :=
      (sight_of_leaves (isAside_footing.replayCreation job) rfl).trans ht
    generalize ((d.replayCreation job).outcome t).2 = u at hu ⊢
    unfold replayChange
    split
    · rename_i hash hhash
      cases he : Entity.ofHash hash with
      | error e => exact ⟨e, rfl, isOfEngine_ofHash he⟩
      | ok subject =>
          have hserved : (u.surroundings d).2.served = (w.surroundings d).2.served :=
            congrArg Prod.fst hu
          have hfetch := fetchChange_fst (hlink.of_sight hu) subject
          rw [hserved] at hfetch
          cases hkept : d.keptChange (w.surroundings d).2.served subject with
          | error e =>
              exact ⟨e, fst_bind_of_error (hfetch.trans hkept) _, isOfEngine_keptChange hkept⟩
          | ok change =>
              refine absurd ⟨hcreate, fun other hother => ?_⟩ h
              cases hhash.symm.trans hother
              exact ⟨subject, change, he, hkept⟩
    · rename_i hnone
      exact absurd ⟨hcreate, fun hash hhash => nomatch hnone.symm.trans hhash⟩ h
  · simp only [not_forall] at hcreate
    obtain ⟨hash, hhash, hbad⟩ := hcreate
    cases he : Entity.ofHash hash with
    | ok e => exact absurd ⟨e, he⟩ hbad
    | error e =>
        have hcreation : ((d.replayCreation job).outcome t).1 = .error e := by
          unfold replayCreation
          rw [hhash]
          dsimp only
          rw [he]
          rfl
        exact ⟨e, fst_bind_of_error hcreation _, isOfEngine_ofHash he⟩

/-- A job that cannot be read is stopped where no rebuild is going on. -/
theorem runJob_of_not_isLegible (hclient : d.client.Obliges) (hfree : w.IsFree d) (hlink : w.IsLinked d)
    {job : Job} (h : ¬ job.IsLegible d w) :
    ∃ e, ((d.runJob job).outcome w).1 = .ok ⟨job, .error e⟩ ∧ e.isOfEngine = false := by
  have hlocked := isLocked_eq hfree hlink
  have hsight : ((d.isLocked IndexType.data).outcome w).2.sight d = w.sight d :=
    sight_of_leaves (isAside_footing.isLocked IndexType.data) rfl
  have hattempt : ((Effect.attempt (d.isLocked IndexType.data)).outcome w).1 = .ok (.ok false) := by
    rw [outcome_attempt, hlocked]
  unfold runJob
  rw [outcome_bind_of_answer hattempt]
  simp only [outcome_attempt]
  generalize ((d.isLocked IndexType.data).outcome w).2 = looked at hsight ⊢
  have hreached : (d.ping.outcome looked).2.sight d = w.sight d :=
    (sight_of_leaves (leaves_ping (isAside_footing.ask _)) rfl).trans hsight
  obtain ⟨e, hreplay, hengine⟩ := replay_of_not_isLegible (w := (d.ping.outcome looked).2) hclient
    (hlink.of_sight hreached) fun hlegible => h (hlegible.of_sight hreached.symm)
  have hwork : ((d.work job false).outcome looked).1 = .error e := by
    unfold work
    have hreplayed : ((Effect.attempt (d.replay job)).outcome (d.ping.outcome looked).2).1 =
        .ok (.error e) := by
      rw [outcome_attempt, hreplay]
    simp only [Bool.false_eq_true, if_false]
    rw [outcome_bind_of_answer (ping_of_obliges hclient)]
    simp only [Bool.not_true, Bool.false_eq_true, if_false]
    rw [outcome_bind_of_answer hreplayed]
    cases e with
    | unavailable text => cases hengine
    | _ => rfl
  refine ⟨e, ?_, hengine⟩
  simp only [Bool.false_eq_true, if_false]
  rw [outcome_bind, outcome_attempt, hwork]
  rfl

end Deployment

end FactIndex
