import FactIndex.Proofs.Fact.EntityHash
import FactIndex.Proofs.Queue.Server
import FactIndex.Proofs.Update.Replication
import FactIndex.Proofs.Update.Stored
import FactIndex.Update.Recovery

/-!
# Writes that are put off

A change that cannot be written is kept in the cache, and a job that names its entity is put into the
queue. When the engine is back the job finds the change by the hash of the entity and writes it.

## Main definitions

* `Deployment.replication`, `Deployment.recover`: the job that is put into the queue, and running it.
* `Queue.Carries`: the queue has a message.
-/

namespace FactIndex

open FactIndex.Effect

variable {σ α : Type}

/-! ## Jobs in the queue -/

/-- The job that is put into the queue for a change. -/
def Deployment.replication (d : Deployment σ) (change : Change) : Job :=
  { replicate := some change.subject.hash, origin := d.origin }

/-- The key of a change is not that of a lock. -/
theorem Deployment.key_ne_lock (d : Deployment σ) (e : Entity) :
    Change.key e ≠ "lock:" ++ d.indexName IndexType.data := by
  intro heq
  have hfront := congrArg (fun s : String => s.toList.head?) heq
  simp [Change.key] at hfront

/-- Runs the job that a message carries. -/
def Deployment.recover (d : Deployment σ) (message : Json) : Action σ JobRun := do
  d.runJob (← .ofExcept (Job.ofMessage message))

/-- The queue has a message with the value. -/
def Queue.Carries (q : Queue) (site : Queue.Site) (value : Json) : Prop :=
  match q.storage with
  | .memory => ∃ id m, Table.get? site.1.memory.ready id = some m ∧ m.value = value
  | .server _ => ∃ id m, site.2.server.field q.dataKey id = some (Message.record m) ∧ m.value = value

/-- A message that has been put is in the queue. -/
theorem Queue.meets_put (q : Queue) (site : Queue.Site) (value metadata : Json) (options : PutOptions) :
    (q.put .waiting value metadata options).Meets site fun r after =>
      ∀ m, r = .ok m → q.Carries after value := by
  unfold Queue.put Queue.connect Queue.Carries
  cases q.storage with
  | memory =>
      refine Meets.bind_of_ok rfl (Meets.bind_of_ok rfl (Meets.bind_of_ok rfl (Meets.ofExcept ?_)))
      intro m _
      exact ⟨_, _, Table.get?_put_self _ _ _, rfl⟩
  | server address =>
      have hconnect : (Queue.Site.connect address .waiting).Meets site fun _ _ => True := trivial
      refine hconnect.bind (fun _ linked _ => ?_) fun e after _ => nofun
      refine Meets.bind_of_ok rfl (Meets.bind_of_ok rfl (Meets.ofExcept ?_))
      intro m _
      exact ⟨_, _, (KeyValue.Server.field_putField _ _ _ _ _).trans (if_pos rfl), rfl⟩

/-- What the queue carries is in the queue itself or in the tables on the server. -/
theorem Queue.carries_congr {q : Queue} {site site' : Queue.Site} {value : Json}
    (hmemory : site'.1 = site.1) (htables : site'.2.server.tables = site.2.server.tables)
    (h : q.Carries site value) : q.Carries site' value := by
  unfold Queue.Carries KeyValue.Server.field KeyValue.Server.table at *
  rwa [hmemory, htables]

variable {d : Deployment σ} {E : DataIndex d.client (d.indexName IndexType.data)} {w w' : World σ}
  {change : Change}

namespace Deployment

/-! ## Putting off -/

/-- A job is put into the queue, if there is one. -/
theorem meets_defer (job : Job) : (d.defer job).Meets w fun r after =>
    after.engine = w.engine ∧ after.catalog = w.catalog ∧ (r = .ok () → d.isDeferring = true →
      d.queue.Carries (after.queue, after.host) job.toMessage) := by
  unfold defer
  split
  · have hput : (d.enqueue job).Meets w fun r after => after.engine = w.engine ∧
        after.catalog = w.catalog ∧ ∀ m, r = .ok m →
          d.queue.Carries (after.queue, after.host) job.toMessage :=
      ⟨rfl, rfl, d.queue.meets_put (w.queue, w.host) job.toMessage .null {}⟩
    refine hput.bind ?_ ?_
    · rintro m after ⟨hengine, hcatalog, hcarries⟩
      exact Meets.pure ⟨hengine, hcatalog, fun _ _ => hcarries m rfl⟩
    · rintro e after ⟨hengine, hcatalog, _⟩
      exact ⟨hengine, hcatalog, nofun⟩
  · rename_i hlost
    exact Meets.pure ⟨rfl, rfl, fun _ h => absurd h hlost⟩

/-- An engine that is in reach says so. -/
theorem ping_of_isUp (hup : E.IsUp w.engine) :
    d.ping.outcome w = (.ok true, w.asked d .ping) ∧ E.IsUp (w.asked d .ping).engine := by
  obtain ⟨answer, t, hsend, hgiven, hstill⟩ := E.ping_of_isUp w.engine hup
  have hengine : (w.asked d .ping).engine = t := by rw [World.asked_engine, hsend]
  refine ⟨?_, by rwa [hengine]⟩
  unfold ping
  rw [outcome_bind_of_ok (outcome_ask d .ping w), hsend]
  simp only
  rw [hgiven]
  rfl

/-- Asking whether the engine is in reach changes nothing else. -/
theorem meets_ping (E : DataIndex d.client (d.indexName IndexType.data)) :
    d.ping.Meets w fun _ after => E.document? after.engine = E.document? w.engine ∧
      after.surroundings d = w.surroundings d ∧ (E.IsUp w.engine → E.IsUp after.engine) := by
  have hsame : E.document? (w.asked d .ping).engine = E.document? w.engine := E.ping w.engine
  have hup : E.IsUp w.engine → E.IsUp (w.asked d .ping).engine := fun hup => (ping_of_isUp hup).2
  refine Meets.bind_of_ok (outcome_ask d .ping w) ?_
  split
  · exact Meets.pure ⟨hsame, rfl, hup⟩
  · exact ⟨hsame, rfl, hup⟩
  · exact Meets.pure ⟨hsame, rfl, hup⟩

/-- A write that may not be tried is put off. -/
theorem meets_deferUnless (job : Job) (reachable : Bool) :
    (do if !reachable then d.defer job
        return reachable : Action σ Bool).Meets w fun r after =>
      after.engine = w.engine ∧ after.catalog = w.catalog ∧
      match r with
      | .ok true => reachable = true ∧ after = w
      | .ok false => d.isDeferring = true →
          d.queue.Carries (after.queue, after.host) job.toMessage
      | .error _ => True := by
  cases reachable with
  | true => exact Meets.pure ⟨rfl, rfl, rfl, rfl⟩
  | false =>
      refine (meets_defer job).bind ?_ ?_
      · rintro _ after ⟨hengine, hcatalog, hcarries⟩
        exact Meets.pure ⟨hengine, hcatalog, hcarries rfl⟩
      · rintro e after ⟨hengine, hcatalog, _⟩
        exact ⟨hengine, hcatalog, trivial⟩

/-- A write may be tried where no rebuild is going on and the engine is in reach. Otherwise its job is put
into the queue. -/
theorem meets_isSafe (E : DataIndex d.client (d.indexName IndexType.data)) (job : Job) :
    (d.isSafe job).Meets w fun r after =>
      E.document? after.engine = E.document? w.engine ∧ after.catalog = w.catalog ∧
      match r with
      | .ok true => w.IsFree d ∧ w.IsLinked d ∧ after.surroundings d = w.surroundings d ∧
          (E.IsUp w.engine → E.IsUp after.engine)
      | .ok false => w.IsLinked d ∧ (d.isDeferring = true →
          d.queue.Carries (after.queue, after.host) job.toMessage)
      | .error _ => True := by
  have hview := leaves_isLocked (d := d) IndexType.data w
  have hengine : ((d.isLocked IndexType.data).outcome w).2.engine = w.engine := rfl
  unfold isSafe
  rcases hr : (d.isLocked IndexType.data).outcome w with ⟨e | locked, looked⟩
  · rw [hr] at hview hengine
    exact Meets.bind_of_error hr ⟨congrArg E.document? hengine, congrArg Prod.fst hview, trivial⟩
  · rw [hr] at hview hengine
    have hhas : ((d.cache.has .waiting (d.lockKey IndexType.data)).outcome (w.cache, w.host)).1 =
        .ok locked := congrArg Prod.fst hr
    have hlink : w.IsLinked d := Cache.isConnected_of_has (Prod.ext hhas rfl)
    have hlock : ∀ full, d.cache.fullKey (d.lockKey IndexType.data) = .ok full →
        (w.surroundings d).2.answers full = locked := fun full hfull =>
      Except.ok.inj ((Cache.has_eq hlink hfull).symm.trans hhas)
    cases locked with
    | true =>
        refine Meets.bind_of_ok hr ((meets_deferUnless job false).mono ?_)
        rintro r after ⟨hstays, hcatalog, hanswer⟩
        refine ⟨congrArg E.document? (hstays.trans hengine),
          hcatalog.trans (congrArg Prod.fst hview), ?_⟩
        rcases r with _ | _ | _
        · trivial
        · exact ⟨hlink, hanswer⟩
        · exact absurd hanswer.1 Bool.false_ne_true
    | false =>
        refine Meets.bind_of_ok hr ((meets_ping E).bind ?_ ?_)
        · rintro reachable reached ⟨hsame, hsurroundings, hup⟩
          refine (meets_deferUnless job reachable).mono ?_
          rintro r after ⟨hstays, hcatalog, hanswer⟩
          refine ⟨(congrArg E.document? hstays).trans (hsame.trans (congrArg E.document? hengine)),
            hcatalog.trans (congrArg Prod.fst (hsurroundings.trans hview)), ?_⟩
          rcases r with _ | _ | _
          · trivial
          · exact ⟨hlink, hanswer⟩
          · obtain ⟨-, rfl⟩ := hanswer
            exact ⟨hlock, hlink, hsurroundings.trans hview, by rwa [hengine] at hup⟩
        · rintro e reached ⟨hsame, hsurroundings, _⟩
          exact ⟨hsame.trans (congrArg E.document? hengine),
            congrArg Prod.fst (hsurroundings.trans hview), trivial⟩

/-- A write that is done has been tried while no rebuild was going on. One that is put off has not been
tried, or the engine was lost on the way, and its job is in the queue. -/
theorem meets_writeOrDefer (E : DataIndex d.client (d.indexName IndexType.data)) (job : Job)
    (write : Action σ Unit)
    {P : Except Failure Unit → (String → Option Json) → Catalog → Prop}
    (hwrite : w.IsFree d → w.IsLinked d → ∀ s : World σ, s.surroundings d = w.surroundings d →
      E.document? s.engine = E.document? w.engine → (E.IsUp w.engine → E.IsUp s.engine) →
        write.Meets s fun r after => P r (E.document? after.engine) after.catalog) :
    (d.writeOrDefer job write).Meets w fun r after =>
      match r with
      | .ok true => P (.ok ()) (E.document? after.engine) after.catalog
      | .ok false => w.IsLinked d ∧
          (d.isDeferring = true → d.queue.Carries (after.queue, after.host) job.toMessage) ∧
          (E.document? after.engine = E.document? w.engine ∧ after.catalog = w.catalog ∨
            ∃ text, P (.error (.unavailable text)) (E.document? after.engine) after.catalog)
      | .error _ => True := by
  refine (meets_isSafe E job).bind ?_ fun e after _ => trivial
  rintro safe tried ⟨hsame, hcatalog, hsafe⟩
  cases safe with
  | false =>
      obtain ⟨hlink, hcarries⟩ := hsafe
      exact Meets.pure ⟨hlink, hcarries, .inl ⟨hsame, hcatalog⟩⟩
  | true =>
      obtain ⟨hfree, hlink, hsurroundings, hup⟩ := hsafe
      have hattempted : (Effect.attempt write).Meets tried fun r after =>
          ∃ done, r = .ok done ∧ P done (E.document? after.engine) after.catalog :=
        ⟨_, rfl, hwrite hfree hlink tried hsurroundings hsame hup⟩
      refine hattempted.bind ?_ fun e after _ => trivial
      rintro _ after ⟨done, ⟨⟩, hdone⟩
      split
      · exact Meets.pure hdone
      · rename_i text
        refine (meets_defer job).bind ?_ fun e after _ => trivial
        rintro _ last ⟨hengine, hlast, hcarries⟩
        refine Meets.pure ⟨hlink, hcarries rfl, .inr ⟨text, ?_⟩⟩
        rwa [hengine, hlast]
      · trivial

/-- A change that is written at once is written as a whole if the engine is in reach. Of one whose writing
is put off some writes may have been done. -/
theorem meets_replicateOrDefer (E : DataIndex d.client (d.indexName IndexType.data))
    (change : Change) :
    (d.writeOrDefer (d.replication change) do
      let _ ← d.replicate change).Meets w fun r after =>
      match r with
      | .ok true => after.catalog = w.catalog ∧ (E.IsUp w.engine → E.document? after.engine =
          Write.applyAll (E.document? w.engine) (E.accepted d.settings.writer w.catalog change))
      | .ok false => w.IsLinked d ∧ after.catalog = w.catalog ∧ E.WritesSome change w after ∧
          (d.isDeferring = true →
            d.queue.Carries (after.queue, after.host) (d.replication change).toMessage)
      | .error _ => True := by
  let all := E.accepted d.settings.writer w.catalog change
  let P (_ : Except Failure Unit) (documents : String → Option Json) (c : Catalog) : Prop :=
    c = w.catalog ∧ (∃ done, done ⊆ all ∧ documents = Write.applyAll (E.document? w.engine) done) ∧
      (E.IsUp w.engine → documents = Write.applyAll (E.document? w.engine) all)
  have htried := meets_writeOrDefer (w := w) E (d.replication change)
    (do let _ ← d.replicate change) (P := P) ?_
  · refine htried.mono fun r after h => ?_
    rcases r with _ | _ | _
    · trivial
    · obtain ⟨hlink, hcarries, ⟨hsame, hcatalog⟩ | ⟨_, hcatalog, hsome, _⟩⟩ := h
      · exact ⟨hlink, hcatalog, ⟨[], by simp, hsame⟩, hcarries⟩
      · exact ⟨hlink, hcatalog, hsome, hcarries⟩
    · exact ⟨h.1, h.2.2⟩
  · intro hfree hlink s hview hsame hup
    have hcatalog : s.catalog = w.catalog := congrArg Prod.fst hview
    have hsome := meets_replicate E change (hfree.congr hview) (hlink.congr hview)
    have hall : E.IsUp s.engine → _ := fun hup =>
      (meets_replicate_of_isUp change (hfree.congr hview) (hlink.congr hview) hup).2
    unfold DataIndex.WritesSome at hsome
    rw [hcatalog, hsame] at hsome hall
    have hboth : (d.replicate change).Meets s fun _ after =>
        P (.ok ()) (E.document? after.engine) after.catalog :=
      ⟨(congrArg Prod.fst (leaves_replicate change s)).trans hcatalog, hsome,
        fun h => hall (hup h)⟩
    exact hboth.bind (fun _ _ h => Meets.pure h) fun _ _ h => h

/-- A change is put off where there is no lock and the engine does not answer. -/
theorem safeReplicate_of_unreachable {looked pinged deferred saved : World σ}
    (hlocked : (d.isLocked IndexType.data).outcome w = (.ok false, looked))
    (hping : d.ping.outcome looked = (.ok false, pinged))
    (hdefer : (d.defer (d.replication change)).outcome pinged = (.ok (), deferred))
    (hsave : (d.saveChange change).outcome deferred = (.ok (), saved)) :
    (d.safeReplicate change).outcome w = (.ok false, saved) := by
  have hsafe : (d.isSafe (d.replication change)).outcome w = (.ok false, deferred) := by
    unfold isSafe
    rw [outcome_bind_of_ok hlocked]
    simp only [Bool.false_eq_true, if_false]
    rw [outcome_bind_of_ok hping]
    simp only [Bool.not_false, if_true]
    rw [outcome_bind_of_ok hdefer]
    rfl
  have hwrite : (d.writeOrDefer (d.replication change) do
      let _ ← d.replicate change).outcome w = (.ok false, deferred) := by
    unfold writeOrDefer
    rw [outcome_bind_of_ok hsafe]
    rfl
  show (d.writeOrDefer (d.replication change) _ >>= _).outcome w = _
  rw [outcome_bind_of_ok hwrite]
  simp only [Bool.not_false, if_true]
  rw [outcome_bind_of_ok hsave]
  rfl

/-- What has come to pass when the writing of a change has been put off: some of its writes may have been
done, the change is in the cache, and its job is in the queue. -/
theorem put_off (E : DataIndex d.client (d.indexName IndexType.data))
    {off : World σ} (h : (d.safeReplicate change).outcome w = (.ok false, off)) :
    w.IsLinked d ∧ off.IsLinked d ∧ off.catalog = w.catalog ∧ E.WritesSome change w off ∧
      (∃ full, d.cache.fullKey (.str (Change.key change.subject)) = .ok full ∧
        d.cache.kept (off.cache, off.host) full = some (d.cache.form change.toJson)) ∧
      (d.isDeferring = true →
        d.queue.Carries (off.queue, off.host) (d.replication change).toMessage) := by
  obtain ⟨isDone, tried, htried, hrest⟩ := exists_of_bind_ok h
  cases isDone with
  | true => cases hrest
  | false =>
      obtain ⟨_, saved, hsaved, hend⟩ := exists_of_bind_ok hrest
      cases hend
      obtain ⟨hlink, hcatalog, hdone, hcarries⟩ := (meets_replicateOrDefer E change).of_outcome htried
      let put := d.cache.put .waiting (.str (Change.key change.subject)) change.toJson
        (.float d.settings.retry.changesLifetimeSeconds)
      have hoff : off = { tried with
          cache := (put.outcome (tried.cache, tried.host)).2.1
          host := (put.outcome (tried.cache, tried.host)).2.2 } := (congrArg Prod.snd hsaved).symm
      have hanswer : (put.outcome (tried.cache, tried.host)).1 = .ok () := congrArg Prod.fst hsaved
      have hput : put.outcome (tried.cache, tried.host) = (.ok (), off.cache, off.host) :=
        Prod.ext hanswer (Prod.ext (congrArg World.cache hoff).symm (congrArg World.host hoff).symm)
      have hkept := @Cache.meets_put d.cache (tried.cache, tried.host) .waiting
        (.str (Change.key change.subject)) change.toJson
        (.float d.settings.retry.changesLifetimeSeconds)
      have htables := Cache.leaves_put d.cache .waiting (.str (Change.key change.subject))
        change.toJson (.float d.settings.retry.changesLifetimeSeconds) (tried.cache, tried.host)
      rw [hput] at htables
      obtain ⟨full, hfull, hself, _⟩ := hkept.of_outcome hput
      have hengine : off.engine = tried.engine := by rw [hoff]
      have hstill : off.catalog = tried.catalog := by rw [hoff]
      have hqueue : off.queue = tried.queue := by rw [hoff]
      refine ⟨hlink, Cache.isConnected_of_put hput, hstill.trans hcatalog, ?_, ⟨full, hfull, hself⟩,
        fun h => ?_⟩
      · unfold DataIndex.WritesSome
        rwa [hengine]
      · exact Queue.carries_congr (by rw [hqueue]) htables (hcarries h)

/-! ## Running a job -/

/-- A job is run from its message. -/
theorem outcome_recover (job : Job) (w : World σ) :
    (d.recover job.toMessage).outcome w = (d.runJob job).outcome w := by
  unfold Deployment.recover
  rw [Job.ofMessage_toMessage]
  rfl

theorem replay_replication (change : Change) : d.replay (d.replication change) = (do
    let subject ← .ofExcept (Entity.ofHash change.subject.hash)
    if let some change ← d.fetchChange subject then
      let _ ← d.replicate change) := rfl

theorem leaves_fetchChange {view : World σ → α} {subject : Entity}
    (h : Leaves view (onCache (d.cache.get .waiting (.str (Change.key subject))))) :
    Leaves view (d.fetchChange subject) := by
  refine (leaves_cached h).bind fun r => ?_
  cases r with
  | none => exact Leaves.pure _
  | some value => exact (Leaves.ofExcept _).map _

/-- Nothing is fetched where nothing is served. -/
theorem fetchChange_eq_none {subject : Entity} {full : String} (hlink : w.IsLinked d)
    (hfull : d.cache.fullKey (.str (Change.key subject)) = .ok full)
    (hserved : (w.surroundings d).2.served full = none) :
    ((d.fetchChange subject).outcome w).1 = .ok none := by
  have hcached : ((d.cached? (.str (Change.key subject))).outcome w).1 = .ok none :=
    (cached_eq hlink hfull).trans (by rw [hserved])
  unfold fetchChange
  rw [outcome_bind_of_answer hcached]
  rfl

/-- What has been saved is fetched. -/
theorem fetchChange_eq_some {full : String} {content : Json} (hlink : w.IsLinked d)
    (hfull : d.cache.fullKey (.str (Change.key change.subject)) = .ok full)
    (hserved : (w.surroundings d).2.served full = some content)
    (hread : d.cache.readBack content = .ok change.toJson)
    (hkeys : change.properties.keys.Nodup) :
    ((d.fetchChange change.subject).outcome w).1 = .ok (some change) := by
  have hcached : ((d.cached? (.str (Change.key change.subject))).outcome w).1 =
      .ok (some change.toJson) :=
    (cached_eq hlink hfull).trans (by rw [hserved]; simp only; rw [hread]; rfl)
  unfold fetchChange
  rw [outcome_bind_of_answer hcached]
  dsimp only
  rw [outcome_map, outcome_ofExcept, Change.read_toJson change hkeys]
  rfl

/-- The job of an entity whose hash is read back writes the change that has been saved. -/
theorem meets_replay {full : String} {content : Json} (hplain : change.subject.IsPlain)
    (hfree : w.IsFree d) (hlink : w.IsLinked d) (hup : E.IsUp w.engine)
    (hfull : d.cache.fullKey (.str (Change.key change.subject)) = .ok full)
    (hserved : (w.surroundings d).2.served full = some content)
    (hread : d.cache.readBack content = .ok change.toJson)
    (hkeys : change.properties.keys.Nodup) :
    (d.replay (d.replication change)).Meets w fun r after => r = .ok () ∧
      E.document? after.engine = Write.applyAll (E.document? w.engine)
        (E.accepted d.settings.writer w.catalog change) := by
  have hfetch : ((d.fetchChange { change.subject with sortkey := none }).outcome w).1 =
      .ok (some change) := fetchChange_eq_some hlink hfull hserved hread hkeys
  have hview : ((d.fetchChange { change.subject with sortkey := none }).outcome w).2.surroundings d =
      w.surroundings d := leaves_fetchChange (leaves_onCache (Cache.leaves_get _ _ _)) w
  have hengine : ((d.fetchChange { change.subject with sortkey := none }).outcome w).2.engine =
      w.engine := leaves_fetchChange (fun _ => rfl) w
  rw [replay_replication, Entity.ofHash_hash hplain]
  refine Meets.bind_of_ok rfl (Meets.bind_of_answer hfetch ?_)
  generalize ((d.fetchChange { change.subject with sortkey := none }).outcome w).2 = looked
    at hview hengine ⊢
  have hcatalog : looked.catalog = w.catalog := congrArg Prod.fst hview
  have hwrite := meets_replicate_of_isUp change (hfree.congr hview)
    (hlink.congr hview) (by rwa [hengine] : E.IsUp looked.engine)
  rw [hcatalog, hengine] at hwrite
  refine hwrite.bind ?_ ?_
  · rintro report after ⟨_, hdocuments⟩
    exact Meets.pure ⟨rfl, hdocuments⟩
  · rintro e after ⟨⟨report, hreport⟩, _⟩
    cases hreport

/-- The job of an entity whose hash is read as that of another one, or not at all, writes nothing if no
change of the other one has been saved. -/
theorem meets_replay_of_lost (E : DataIndex d.client (d.indexName IndexType.data))
    (hlink : w.IsLinked d)
    (hlost : ∀ e, Entity.ofHash change.subject.hash = .ok e → ∀ full,
      d.cache.fullKey (.str (Change.key e)) = .ok full → (w.surroundings d).2.served full = none) :
    (d.replay (d.replication change)).Meets w fun r after =>
      (∀ text, r ≠ .error (.unavailable text)) ∧
        E.document? after.engine = E.document? w.engine := by
  rw [replay_replication]
  refine Meets.ofExcept_bind (fun e he => ?_) fun failure hfailure => ?_
  · obtain ⟨full, hfull⟩ := d.cache.exists_fullKey (Change.key e)
    have hfetch := fetchChange_eq_none hlink hfull (hlost e he full hfull)
    have hengine : ((d.fetchChange e).outcome w).2.engine = w.engine :=
      leaves_fetchChange (fun _ => rfl) w
    exact Meets.bind_of_answer hfetch (Meets.pure ⟨fun _ => nofun, congrArg E.document? hengine⟩)
  · refine ⟨fun text heq => ?_, rfl⟩
    cases heq
    exact Entity.ofHash_ne_unavailable _ _ hfailure

/-- A job is run where no rebuild is going on and the engine is in reach. -/
theorem meets_runJob (job : Job) {P : Except Failure Unit → (String → Option Json) → Prop}
    (hfree : w.IsFree d) (hlink : w.IsLinked d) (hup : E.IsUp w.engine)
    (hreplay : ∀ s : World σ, s.surroundings d = w.surroundings d → E.IsUp s.engine →
      E.document? s.engine = E.document? w.engine → (d.replay job).Meets s fun r after =>
        (∀ text, r ≠ .error (.unavailable text)) ∧ P r (E.document? after.engine)) :
    (d.runJob job).Meets w fun r after => ∃ done, P done (E.document? after.engine) ∧
      r = .ok ⟨job, done.map fun _ => .succeeded⟩ := by
  have hlocked := isLocked_eq hfree hlink
  have hview := leaves_isLocked (d := d) IndexType.data w
  rcases hr : (d.isLocked IndexType.data).outcome w with ⟨r, looked⟩
  have hengine : looked.engine = w.engine := (congrArg (·.2.engine) hr).symm
  rw [hr] at hlocked hview
  cases hlocked
  have hattempt : (Effect.attempt (d.isLocked IndexType.data)).outcome w = (.ok (.ok false), looked) := by
    rw [outcome_attempt, hr]
  obtain ⟨hreached, hup⟩ := ping_of_isUp (E := E) (w := looked) (by rwa [hengine])
  have hdone := hreplay (looked.asked d .ping) ((surroundings_asked .ping).trans hview) hup
    ((E.ping looked.engine).trans (by rw [hengine]))
  have hwork : (d.work job false).Meets looked fun r after =>
      ∃ done, P done (E.document? after.engine) ∧ r = done.map fun _ => .succeeded := by
    have hattempted : (Effect.attempt (d.replay job)).Meets (looked.asked d .ping) fun r after =>
        ∃ done, r = .ok done ∧ (∀ text, done ≠ .error (.unavailable text)) ∧
          P done (E.document? after.engine) := ⟨_, rfl, hdone⟩
    refine Meets.bind_of_ok hreached (hattempted.bind ?_ ?_)
    · rintro done after ⟨_, ⟨⟩, hreachable, hdone⟩
      cases done with
      | ok _ => exact Meets.pure ⟨_, hdone, rfl⟩
      | error e =>
          cases e with
          | unavailable text => exact absurd rfl (hreachable text)
          | _ => exact ⟨_, hdone, rfl⟩
    · rintro e after ⟨done, ⟨⟩, _⟩
  have hrun : (Effect.attempt (d.work job false)).Meets looked fun r after =>
      ∃ done, P done (E.document? after.engine) ∧ r = .ok (done.map fun _ => .succeeded) := by
    obtain ⟨done, hdone, heq⟩ := hwork
    exact ⟨done, hdone, congrArg Except.ok heq⟩
  refine Meets.bind_of_ok hattempt (hrun.bind ?_ ?_)
  · rintro _ after ⟨done, hdone, ⟨⟩⟩
    exact Meets.pure ⟨done, hdone, rfl⟩
  · rintro e after ⟨done, _, ⟨⟩⟩

/-- Where nothing stands in the way a job succeeds whose write does. -/
theorem recover_of_replay (job : Job) {documents : String → Option Json}
    (hfree : w.IsFree d) (hlink : w.IsLinked d) (hup : E.IsUp w.engine)
    (hreplay : ∀ s : World σ, s.surroundings d = w.surroundings d → E.IsUp s.engine →
      E.document? s.engine = E.document? w.engine → (d.replay job).Meets s fun r after =>
        r = .ok () ∧ E.document? after.engine = documents) :
    ∃ after, (d.recover job.toMessage).outcome w = (.ok ⟨job, .ok .succeeded⟩, after) ∧
      E.document? after.engine = documents := by
  have hrun := meets_runJob (E := E) job (P := fun r left => r = .ok () ∧ left = documents)
    hfree hlink hup fun s hview hstill hsame =>
      (hreplay s hview hstill hsame).mono fun r after ⟨hr, hdocuments⟩ =>
        ⟨fun text => by rw [hr]; nofun, hr, hdocuments⟩
  rcases hr : (d.runJob job).outcome w with ⟨r, after⟩
  obtain ⟨_, ⟨rfl, hdocuments⟩, rfl⟩ := hrun.of_outcome hr
  exact ⟨after, (outcome_recover _ _).trans hr, hdocuments⟩

/-- Where nothing stands in the way the job of a change that has been saved succeeds and writes it. -/
theorem recover_replication {full : String} {content : Json} (hplain : change.subject.IsPlain)
    (hfree : w.IsFree d) (hlink : w.IsLinked d) (hup : E.IsUp w.engine)
    (hfull : d.cache.fullKey (.str (Change.key change.subject)) = .ok full)
    (hserved : (w.surroundings d).2.served full = some content)
    (hread : d.cache.readBack content = .ok change.toJson)
    (hkeys : change.properties.keys.Nodup) : ∃ after,
      (d.recover (d.replication change).toMessage).outcome w =
        (.ok ⟨d.replication change, .ok .succeeded⟩, after) ∧
      E.document? after.engine = Write.applyAll (E.document? w.engine)
        (E.accepted d.settings.writer w.catalog change) := by
  refine recover_of_replay _ hfree hlink hup fun s hview hstill hsame => ?_
  have hreplay := meets_replay (E := E) hplain (hfree.congr hview) (hlink.congr hview) hstill
    hfull (by rw [hview]; exact hserved) hread hkeys
  have hcatalog : s.catalog = w.catalog := congrArg Prod.fst hview
  rwa [hsame, hcatalog] at hreplay

end Deployment

end FactIndex
