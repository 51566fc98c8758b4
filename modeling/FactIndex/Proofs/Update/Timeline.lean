import FactIndex.Proofs.Decimal.Order
import FactIndex.Proofs.Update.Steady

/-!
# What happens while jobs wait

While jobs wait more writes come in, the runner does what is due, time passes, the search engine is lost and
comes back, and rebuilds begin and end. A queue of jobs stays one whatever happens.

## Main definitions

* `Event`, `World.later`: what can happen, and the world after it.
* `World.IsFair`: time goes forward.
* `Deployment.noting`: notes on the messages of a run.
* `Deployment.meets_runMessages_noting`: what every message of a run keeps, the run keeps.
* `World.IsGoing.later`: the queue stays one of jobs.
-/

namespace FactIndex

open FactIndex.Effect FactIndex.KeyValue

variable {σ α γ : Type}

/-! ## Events -/

/-- What can happen while jobs wait. -/
inductive Event (σ : Type) where
  /-- A write is done or put off. -/
  | write (call : WriteCall)
  /-- The jobs that are due are run, so many of them as are asked for. -/
  | run (count : Int)
  /-- Time passes. -/
  | wait (seconds : Float)
  /-- The search engine is lost or comes back, or others write to it. -/
  | turn (change : σ → σ)
  /-- A rebuild begins. -/
  | lock (version : Json)
  /-- A rebuild ends. -/
  | unlock

namespace Event

/-- What is done when something happens. -/
def action (d : Deployment σ) : Event σ → Action σ Unit
  | .write call => do
    let _ ← call.run d
  | .run count => do
    let _ ← d.runJobs (.int count)
  | .wait seconds => .make fun w =>
    (.ok (), { w with host := { w.host with network := w.host.network.advance seconds } })
  | .turn change => .make fun w => (.ok (), { w with engine := change w.engine })
  | .lock version => d.setLock IndexType.data version
  | .unlock => d.releaseLock IndexType.data

/-- The world after something has happened. -/
def after (d : Deployment σ) (w : World σ) (e : Event σ) : World σ := ((e.action d).outcome w).2

/-- Time goes forward, and a time that comes can be stored. -/
def IsFair (d : Deployment σ) (w : World σ) : Event σ → Prop
  | .wait seconds => w.host.network.now ≤ w.host.network.now + seconds ∧
      d.ReadsTime (w.host.network.now + seconds)
  | _ => True

end Event

namespace World

/-- The world after several things have happened. -/
def later (d : Deployment σ) (w : World σ) (events : List (Event σ)) : World σ :=
  events.foldl (Event.after d) w

/-- Time goes forward whatever happens. -/
def IsFair (d : Deployment σ) (w : World σ) : List (Event σ) → Prop
  | [] => True
  | e :: rest => e.IsFair d w ∧ (e.after d w).IsFair d rest

/-- A queue of jobs at a time that can be stored. -/
structure IsGoing (d : Deployment σ) (w : World σ) : Prop where
  steady : w.IsSteady d
  begun : 0 < w.host.network.now
  readsTime : d.ReadsTime w.host.network.now

end World

variable {d : Deployment σ} {w : World σ}

/-- An empty queue in memory. -/
theorem World.isGoing_of_empty (hstorage : d.queue.storage = .memory) (hempty : w.queue.memory = {})
    (hbegun : 0 < w.host.network.now) : w.IsGoing d ∧ ∀ id, w.load? d id = none := by
  have hqueued : w.queued d = .memory {} := by
    unfold World.queued Queue.contents
    rw [hstorage, hempty]
  have hnone : ∀ id, w.load? d id = none := by
    intro id
    unfold World.load?
    rw [hqueued]
    rfl
  refine ⟨⟨⟨?_, ?_, fun id hid => absurd (hnone id) hid, fun id l hl => ?_⟩, hbegun,
    fun hserver => absurd hstorage hserver⟩, hnone⟩
  · rw [hqueued]
    exact Queue.Memory.isTidy_empty
  · unfold Queue.isConnected
    rw [hstorage]
  · cases (hnone id).symm.trans hl

/-! ## Writes -/

namespace Deployment

/-- A write that is put off adds its job to the queue. Any other leaves the queue as it is. -/
def Puts (d : Deployment σ) (w : World σ) (job : Job) (r : Except Failure Bool) (after : World σ) : Prop :=
  match r with
  | .ok false => w.Adds d job none after
  | _ => after.bearing d = w.bearing d

theorem outcome_defer_adds (h : w.IsSteady d) (hdefer : d.isDeferring = true) (job : Job) : ∃ after,
    (d.defer job).outcome w = (.ok (), after) ∧ w.Adds d job none after := by
  obtain ⟨m, after, hput, hadds, -⟩ := outcome_enqueue_adds h job none
  refine ⟨after, ?_, hadds⟩
  unfold defer
  rw [if_pos hdefer, outcome_bind_of_ok hput]
  rfl

theorem meets_isSafe_puts (h : w.IsSteady d) (hdefer : d.isDeferring = true) (job : Job) :
    (d.isSafe job).Meets w (d.Puts w job) := by
  have hleft : ∀ t : World σ, t.bearing d = w.bearing d → ∀ reachable : Bool,
      (do if !reachable then d.defer job
          return reachable : Action σ Bool).Meets t (d.Puts w job) := by
    intro t ht reachable
    cases reachable with
    | true => exact Meets.pure ht
    | false =>
        obtain ⟨after, houtcome, hadds⟩ := outcome_defer_adds (h.of_bearing ht) hdefer job
        exact Meets.bind_of_ok houtcome (Meets.pure (hadds.congr ht))
  have hlooked : (d.isLocked IndexType.data).Meets w fun _ t => t.bearing d = w.bearing d :=
    isAside_bearing.isLocked _ w
  refine hlooked.bind (fun locked t ht => ?_) fun e t ht => ht
  cases locked with
  | true => exact hleft t ht false
  | false =>
      have hping : d.ping.Meets t fun _ s => s.bearing d = w.bearing d :=
        (leaves_ping (isAside_bearing.ask _) t).trans ht
      exact hping.bind (fun reachable s hs => hleft s hs reachable) fun e s hs => hs

theorem meets_writeOrDefer_puts (h : w.IsSteady d) (hdefer : d.isDeferring = true) (job : Job)
    {write : Action σ Unit} (hwrite : Leaves (World.bearing d) write) :
    (d.writeOrDefer job write).Meets w (d.Puts w job) := by
  refine (meets_isSafe_puts h hdefer job).bind (fun safe t ht => ?_) fun e t ht => ht
  cases safe with
  | false => exact Meets.pure ht
  | true =>
      have hattempt : (Effect.attempt write).Meets t fun _ s => s.bearing d = w.bearing d :=
        (hwrite t).trans ht
      refine hattempt.bind (fun done s hs => ?_) fun e s hs => hs
      split
      · exact Meets.pure hs
      · obtain ⟨after, houtcome, hadds⟩ := outcome_defer_adds (h.of_bearing hs) hdefer job
        exact Meets.bind_of_ok houtcome (Meets.pure (hadds.congr hs))
      · exact hs

/-! ## The cache beside the queue -/

/-- What touches neither the parts of the queue on the server nor the time leaves the queue as it is. -/
theorem leaves_bearing_onCache {x : Effect Cache.Site α}
    (hx : Leaves (fun site : Cache.Site => (d.queue.shelf site.2.server, site.2.network.standing)) x) :
    Leaves (World.bearing d) (onCache x) := by
  intro w
  have hsame := hx (w.cache, w.host)
  unfold onCache
  rw [outcome_onPart]
  dsimp only at hsame ⊢
  simp only [Prod.mk.injEq] at hsame
  unfold World.bearing World.queued Queue.contents Queue.isConnected
  rw [hsame.2]
  unfold Queue.shelf at hsame
  cases d.queue.storage with
  | memory => rfl
  | server address => rw [hsame.1]

theorem isQuiet_shelf (d : Deployment σ) :
    Host.IsQuiet (fun h : Host => (d.queue.shelf h.server, h.network.standing)) := fun _ _ _ => rfl

theorem leaves_bearing_put (key value ttl : Json) :
    Leaves (World.bearing d) (onCache (d.cache.put .waiting key value ttl)) :=
  leaves_bearing_onCache (Cache.leaves_host_put (isQuiet_shelf d) (fun _ _ => rfl) _ _ _)

theorem leaves_releaseLock {view : World σ → α} {type : String}
    (h : Leaves view (onCache (d.cache.delete .waiting (d.lockKey type)))) :
    Leaves view (d.releaseLock type) := by
  refine h.attempt.bind fun r => ?_
  split
  · exact Leaves.pure _
  · exact Leaves.pure _
  · exact Leaves.throw _

theorem leaves_bearing_releaseLock : Leaves (World.bearing d) (d.releaseLock IndexType.data) :=
  leaves_releaseLock (leaves_bearing_onCache (Cache.leaves_host_delete (isQuiet_shelf d)
    fun _ hfull h => congrArg (Prod.mk · _) (Queue.shelf_remove (lock_notMem_keys hfull) h.server)))

end Deployment

namespace WriteCall

/-- A write that is put off adds its job to a steady queue. Any other leaves the queue as it is. -/
theorem meets_run_puts (h : w.IsSteady d) (hdefer : d.isDeferring = true)
    (hcache : d.cache.IsUsable .waiting d.settings.retry.changesLifetimeSeconds) (call : WriteCall) :
    (call.run d).Meets w (d.Puts w (call.job d)) := by
  cases call with
  | create e =>
      exact Deployment.meets_writeOrDefer_puts h hdefer _ (Deployment.isAside_bearing.indexEntity e)
  | delete ids isConcept =>
      rw [run_delete]
      exact Deployment.meets_writeOrDefer_puts h hdefer _
        ((Deployment.isAside_bearing.bulk _).bind fun _ => Leaves.pure _)
  | replicate change =>
      have hwrite : Leaves (World.bearing d) ((replicate change).write d) :=
        (Deployment.isAside_bearing.replicate change).bind fun _ => Leaves.pure _
      refine (Deployment.meets_writeOrDefer_puts h hdefer _ hwrite).bind (fun isDone t ht => ?_)
        fun e t ht => ht
      cases isDone with
      | true => exact Meets.pure ht
      | false =>
          obtain ⟨saved, hsave, -⟩ := outcome_saveChange (w := t) hcache change
          have hsaved : saved.bearing d = t.bearing d := by
            have hleft := Deployment.leaves_bearing_put (d := d) (.str (Change.key change.subject))
              change.toJson (.float d.settings.retry.changesLifetimeSeconds) t
            change ((d.saveChange change).outcome t).2.bearing d = _ at hleft
            rwa [hsave] at hleft
          exact Meets.bind_of_ok hsave (Meets.pure (hsaved.trans ht))

end WriteCall

/-! ## Runs -/

namespace Deployment

/-- Notes on the messages of a run, one after the other, up to the one that stops it. -/
def noting (d : Deployment σ) (note : World σ → Message → γ → γ) : List Message → World σ → γ → γ
  | [], _, g => g
  | m :: rest, w, g =>
    match (d.runMessage m).outcome w with
    | (.ok _, after) => noting d note rest after (note w m g)
    | (.error _, _) => note w m g

/-- What a pull from a steady queue does: it hands out jobs that are held, each once, and none that cannot
be seen yet. What is not handed out waits as before, and if it can be seen there are enough others. -/
structure Pulls (d : Deployment σ) (w : World σ) (count : Int) (ms : List Message) (pulled : World σ) :
    Prop where
  outcome : (onQueue (d.queue.pull { count := some count })).outcome w = (.ok ms, pulled)
  steady : pulled.IsSteady d
  standing : pulled.host.network.standing = w.host.network.standing
  load? : pulled.load? d = w.load? d
  once : (ms.map (·.id)).Nodup
  held : ∀ m ∈ ms, w.load? d m.id = some m.load ∧ m.id ∈ pulled.inFlight d
  handed : ∀ id t, w.waits? d id = some t → id ∈ ms.map (·.id) → t ≤ w.host.network.now
  left : ∀ id t, w.waits? d id = some t → id ∉ ms.map (·.id) →
    pulled.waits? d id = some t ∧ (t ≤ w.host.network.now → count ≤ ms.length)

theorem exists_pulls (h : w.IsSteady d) (count : Int) : ∃ ms pulled, d.Pulls w count ms pulled := by
  obtain ⟨ms, site, hpull, hconnected, honce, htidy, hload, hheld, hwaits⟩ :=
    Queue.outcome_pull_tidy h.tidy h.isConnected { count := some count }
  have hstanding := d.queue.leaves_standing_pull { count := some count } (w.queue, w.host)
  rw [hpull] at hstanding
  have hissued : site.2.network.issued = w.host.network.issued := congrArg Prod.snd hstanding
  refine ⟨ms, { w with queue := site.1, host := site.2 }, outcome_onQueue hpull,
    ⟨htidy, hconnected, fun id hid => ?_, fun id l hl => ?_⟩, hstanding, hload, honce, hheld,
    fun id t hid => (hwaits id t hid).1, fun id t hid hnot => ?_⟩
  · obtain ⟨k, hk, hname⟩ := h.named id fun hnone => hid ((congrFun hload id).trans hnone)
    exact ⟨k, hissued ▸ hk, hname⟩
  · exact h.job id l ((congrFun hload id).symm.trans hl)
  · refine ((hwaits id t hid).2 hnot).imp_right fun hfull hseen => Int.le_trans ?_ (hfull hseen)
    show count ≤ if count = 0 then 1 else count
    split <;> omega

/-- What every message of a run keeps, the run keeps. -/
theorem meets_runMessages_noting (hlinked : ∀ w : World σ, w.IsLinked d)
    {f : World σ → Message → γ → γ} {P : World σ → γ → Prop}
    (hstep : ∀ (w : World σ) (g : γ) (m : Message) (job : Job) (locked : Bool), w.IsGoing d → P w g →
      m.value = job.toMessage → w.load? d m.id = some m.load →
      ((d.isLocked IndexType.data).outcome w).1 = .ok locked →
      ∀ r after, (d.runMessage m).outcome w = (r, after) → d.Ends w m (resumed locked job) r after →
        (locked = true → ∃ status : JobStatus, status.isPutOff = true ∧ r = .ok (some status)) →
        P after (f w m g))
    {ms : List Message} (honce : (ms.map (·.id)).Nodup) {w : World σ} (hw : w.IsGoing d)
    (hheld : ∀ m ∈ ms, w.load? d m.id = some m.load ∧ m.id ∈ w.inFlight d) {g : γ} (hg : P w g) :
    (d.runMessages ms).Meets w fun _ after => after.IsGoing d ∧ P after (d.noting f ms w g) := by
  induction ms generalizing w g with
  | nil => exact ⟨hw, hg⟩
  | cons m rest ih =>
      obtain ⟨hnew, hrest⟩ := List.nodup_cons.mp honce
      obtain ⟨hload, hflight⟩ := hheld m List.mem_cons_self
      obtain ⟨job, hvalue, -⟩ := hw.steady.job _ _ hload
      obtain ⟨locked, hlocked, -⟩ := isLocked_of_isLinked (hlinked w)
      have hends := meets_runMessage_ends hw.steady hw.readsTime hvalue hflight hload hlocked
      rcases hrun : (d.runMessage m).outcome w with ⟨r, next⟩
      obtain ⟨hends, hwaits⟩ := hends.of_outcome hrun
      have hnext := hstep w g m job locked hw hg hvalue hload hlocked r next hrun hends hwaits
      have hgoing : next.IsGoing d := ⟨hends.steady, hends.now ▸ hw.begun, hends.now ▸ hw.readsTime⟩
      have hstill : ∀ other ∈ rest, next.load? d other.id = some other.load ∧
          other.id ∈ next.inFlight d := by
        intro other hother
        obtain ⟨hthere, hflying⟩ := hheld other (List.mem_cons_of_mem _ hother)
        have hne : other.id ≠ m.id := ne_of_mem_of_not_mem (List.mem_map_of_mem hother) hnew
        have hnew : other.id ≠ w.nextName := fun heq =>
          absurd (hthere.symm.trans ((congrArg _ heq).trans hw.steady.load?_nextName)) nofun
        refine ⟨(hends.spares.load? other.id hnew hne).trans hthere, ?_⟩
        rw [hends.inFlight]
        exact List.mem_filter.mpr ⟨hflying, decide_eq_true hne⟩
      unfold runMessages noting
      rw [hrun]
      cases r with
      | error e => exact Meets.bind_of_error hrun ⟨hgoing, hnext⟩
      | ok status =>
          refine Meets.bind_of_ok hrun ((ih hrest hgoing hstill hnext).bind ?_ fun e after h => h)
          exact fun statuses after h => Meets.pure h

theorem Pulls.outcome_runJobs {count : Int} {ms : List Message} {pulled : World σ}
    (h : d.Pulls w count ms pulled) :
    (d.runJobs (.int count)).outcome w = (d.runMessages ms).outcome pulled := by
  have hread : (PullOptions.read (.single "max_count" (.int count))).toExcept =
    .ok { count := some count } := rfl
  unfold runJobs
  rw [hread]
  exact outcome_bind_of_ok h.outcome _

theorem Pulls.isGoing {count : Int} {ms : List Message} {pulled : World σ}
    (h : d.Pulls w count ms pulled) (hw : w.IsGoing d) : pulled.IsGoing d := by
  have hnow : pulled.host.network.now = w.host.network.now := congrArg Prod.fst h.standing
  exact ⟨h.steady, hnow ▸ hw.begun, hnow ▸ hw.readsTime⟩

end Deployment

namespace Event

/-- Notes on the messages that are handed out and run when something happens. -/
def noting (d : Deployment σ) (hand : World σ → List Message → γ → γ) (note : World σ → Message → γ → γ)
    (w : World σ) (e : Event σ) (g : γ) : γ :=
  match e with
  | .run count =>
    match (onQueue (d.queue.pull { count := some count })).outcome w with
    | (.ok ms, pulled) => d.noting note ms pulled (hand w ms g)
    | (.error _, _) => g
  | _ => g

/-- What a pull and every message of a run keep, the run keeps. -/
theorem after_run_noting (hlinked : ∀ w : World σ, w.IsLinked d)
    {h : World σ → List Message → γ → γ} {f : World σ → Message → γ → γ} {P : World σ → γ → Prop}
    (hpull : ∀ (w : World σ) (g : γ) (count : Int) (ms : List Message) (pulled : World σ), w.IsGoing d →
      P w g → d.Pulls w count ms pulled → P pulled (h w ms g))
    (hstep : ∀ (w : World σ) (g : γ) (m : Message) (job : Job) (locked : Bool), w.IsGoing d → P w g →
      m.value = job.toMessage → w.load? d m.id = some m.load →
      ((d.isLocked IndexType.data).outcome w).1 = .ok locked →
      ∀ r after, (d.runMessage m).outcome w = (r, after) →
        d.Ends w m (Deployment.resumed locked job) r after →
        (locked = true → ∃ status : JobStatus, status.isPutOff = true ∧ r = .ok (some status)) →
        P after (f w m g))
    (hw : w.IsGoing d) {g : γ} (hg : P w g) (count : Int) :
    ((run count : Event σ).after d w).IsGoing d ∧
      P ((run count : Event σ).after d w) ((run count : Event σ).noting d h f w g) := by
  obtain ⟨ms, pulled, hpulls⟩ := Deployment.exists_pulls hw.steady count
  have hmessages := Deployment.meets_runMessages_noting hlinked hstep hpulls.once (hpulls.isGoing hw)
    (fun m hm => ⟨(congrFun hpulls.load? m.id).trans (hpulls.held m hm).1, (hpulls.held m hm).2⟩)
    (hpull w g count ms pulled hw hg hpulls)
  have hafter : (run count : Event σ).after d w = ((d.runMessages ms).outcome pulled).2 := by
    unfold after action
    rw [outcome_bind, hpulls.outcome_runJobs]
    rcases (d.runMessages ms).outcome pulled with ⟨_ | _, _⟩ <;> rfl
  have hnoting : (run count : Event σ).noting d h f w g = d.noting f ms pulled (h w ms g) := by
    unfold noting
    simp only [hpulls.outcome]
  rw [hafter, hnoting]
  exact hmessages

theorem after_write (hw : w.IsGoing d) (hdefer : d.isDeferring = true)
    (hcache : d.cache.IsUsable .waiting d.settings.retry.changesLifetimeSeconds) (call : WriteCall) :
    d.Puts w (call.job d) ((call.run d).outcome w).1 ((write call : Event σ).after d w) := by
  have hputs := call.meets_run_puts hw.steady hdefer hcache
  unfold after action
  rw [outcome_bind]
  rcases hr : (call.run d).outcome w with ⟨_ | _, _⟩ <;> exact hputs.of_outcome hr

end Event

namespace World

theorem IsGoing.of_bearing {w' : World σ} (hw : w.IsGoing d) (h : w'.bearing d = w.bearing d) :
    w'.IsGoing d := by
  have hnow : w'.host.network.now = w.host.network.now :=
    congrArg (fun bearing : Queue.Contents × Bool × Float × Nat => bearing.2.2.1) h
  exact ⟨hw.steady.of_bearing h, hnow ▸ hw.begun, hnow ▸ hw.readsTime⟩

/-- A job that is put off is held under the next name, and can be seen at once. -/
theorem IsGoing.adds (hw : w.IsGoing d) {call : WriteCall} {w' : World σ}
    (h : w.Adds d (call.job d) none w') : w'.IsGoing d ∧
      (∀ id, w'.load? d id = if w.nextName = id then some ⟨(call.job d).toMessage,
        w.host.network.now, w.host.network.now + 0⟩ else w.load? d id) ∧
      ∀ id, w'.waits? d id = if w.nextName = id then some (w.host.network.now + 0)
        else w.waits? d id := by
  have hjob : d.CanStore (call.job d) := by
    intro _ x hx
    cases call <;> cases hx
  have htime : d.queue.storage ≠ .memory → _ := fun hserver => hw.readsTime hserver
  obtain ⟨hsteady, hload, hwaits⟩ := h.load? hw.steady hjob fun hserver =>
    ⟨htime hserver _ (by simp), htime hserver _ (by simp [World.jobMessage, Queue.nextMessage])⟩
  have hnow : w'.host.network.now = w.host.network.now :=
    congrArg (fun bearing : Queue.Contents × Bool × Float × Nat => bearing.2.2.1) h
  exact ⟨⟨hsteady, hnow ▸ hw.begun, hnow ▸ hw.readsTime⟩, hload, hwaits⟩

theorem IsGoing.puts (hw : w.IsGoing d) {call : WriteCall} {r : Except Failure Bool} {w' : World σ}
    (h : d.Puts w (call.job d) r w') : w'.IsGoing d := by
  unfold Deployment.Puts at h
  split at h
  · exact (hw.adds h).1
  · exact hw.of_bearing h

/-- Whatever happens, the queue stays one of jobs. -/
theorem IsGoing.after (hw : w.IsGoing d) (hdefer : d.isDeferring = true)
    (hcache : d.cache.IsUsable .waiting d.settings.retry.changesLifetimeSeconds) {e : Event σ}
    (hfair : e.IsFair d w) : (e.after d w).IsGoing d := by
  cases e with
  | write call => exact hw.puts (Event.after_write hw hdefer hcache call)
  | run count =>
      have hrun := Event.after_run_noting (h := fun _ _ g => g) (f := fun _ _ (_ : Unit) => ()) (P := fun _ _ => True)
        (fun w => Cache.isConnected_of_isUsable hcache _) (fun _ _ _ _ _ _ _ _ => trivial)
        (fun _ _ _ _ _ _ _ _ _ _ _ _ _ _ _ => trivial) hw trivial count (g := ())
      exact hrun.1
  | wait seconds =>
      exact ⟨hw.steady.congr rfl rfl rfl, Decimal.lt_of_lt_of_le hw.begun hfair.1, hfair.2⟩
  | turn change => exact hw.of_bearing rfl
  | lock version => exact hw.of_bearing (Deployment.leaves_bearing_put _ _ _ w)
  | unlock => exact hw.of_bearing (Deployment.leaves_bearing_releaseLock w)

/-- Whatever has happened, the queue is one of jobs. -/
theorem IsGoing.later (hdefer : d.isDeferring = true)
    (hcache : d.cache.IsUsable .waiting d.settings.retry.changesLifetimeSeconds) {events : List (Event σ)}
    (hw : w.IsGoing d) (hfair : w.IsFair d events) : (w.later d events).IsGoing d := by
  induction events generalizing w with
  | nil => exact hw
  | cons e rest ih => exact ih (hw.after hdefer hcache hfair.1) hfair.2

end World

end FactIndex
