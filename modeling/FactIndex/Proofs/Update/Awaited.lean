import FactIndex.Proofs.Update.Timeline

/-!
# Changes that are awaited

A change that has been put off is kept in the cache for some time, and the job that is to write it waits in
the queue for as long as it takes. The two do not know of each other: the time of the change begins when it
is put off, and nothing that happens to the job, be it put back or be it held up by a rebuild, makes it any
longer. So a job that waits finds the change that was put off last while its time is not over, and nothing
afterwards; then it has nothing to write, and succeeds.

## Main definitions

* `Deployment.IsBeside`: views that are left alone by all that jobs and queues do.
* `World.lastDeferral`: the change of an entity that was put off last, and when.
* `World.Awaits`: a job for the change of an entity is held by the queue.
* `World.Remembers`: what the cache has of the change that was put off last.
* `World.fetchChange_of_awaits`: what a job that waits finds.
-/

namespace FactIndex

open FactIndex.Effect FactIndex.KeyValue

variable {σ α β : Type} {d : Deployment σ} {w : World σ}

/-! ## What jobs and queues leave alone -/

namespace Deployment

/-- A view that is left by all that jobs do, and by whatever touches nothing but the queue. -/
structure IsBeside (d : Deployment σ) (view : World σ → β) : Prop extends d.IsAside view where
  onQueue : ∀ {α : Type} (x : Effect Queue.Site α),
    Leaves (fun site : Queue.Site => d.queue.outside site.2) x → Leaves view (onQueue x)

namespace IsBeside

variable {view : World σ → β}

theorem enqueue (h : d.IsBeside view) (job : Job) (delay : Option Float) :
    Leaves view (d.enqueue job delay) := h.onQueue _ (d.queue.leaves_put _ _ _)

theorem defer (h : d.IsBeside view) (job : Job) : Leaves view (d.defer job) := by
  unfold Deployment.defer
  split
  · exact (h.enqueue job none).bind fun _ => Leaves.pure _
  · exact Leaves.pure _

theorem isSafe (h : d.IsBeside view) (job : Job) : Leaves view (d.isSafe job) := by
  have hrest : ∀ reachable : Bool, Leaves view (do
      if !reachable then d.defer job
      return reachable : Action σ Bool) := by
    intro reachable
    cases reachable with
    | true => exact Leaves.pure _
    | false => exact (h.defer job).bind fun _ => Leaves.pure _
  refine (h.isLocked _).bind fun locked => ?_
  cases locked with
  | true => exact hrest false
  | false => exact (leaves_ping (h.ask _)).bind hrest

theorem writeOrDefer (h : d.IsBeside view) (job : Job) {write : Action σ Unit} (hwrite : Leaves view write) :
    Leaves view (d.writeOrDefer job write) := by
  refine (h.isSafe job).bind fun safe => ?_
  cases safe with
  | false => exact Leaves.pure _
  | true =>
      refine hwrite.attempt.bind fun r => ?_
      split
      · exact Leaves.pure _
      · exact (h.defer job).bind fun _ => Leaves.pure _
      · exact Leaves.throw _

theorem requeue (h : d.IsBeside view) (job : Job) : Leaves view (d.requeue job) := by
  unfold Deployment.requeue
  split
  · exact Leaves.pure _
  · exact Leaves.bind (fun _ => rfl) fun now => (h.enqueue _ _).bind fun _ => Leaves.pure _

theorem work (h : d.IsBeside view) (job : Job) (locked : Bool) : Leaves view (d.work job locked) := by
  cases locked with
  | true => exact h.requeue job
  | false =>
      refine (leaves_ping (h.ask _)).bind fun reachable => ?_
      cases reachable with
      | false => exact h.requeue job
      | true =>
          refine (h.replay job).attempt.bind fun r => ?_
          split
          · exact Leaves.pure _
          · exact h.requeue job
          · exact Leaves.throw _

theorem runJob (h : d.IsBeside view) (job : Job) : Leaves view (d.runJob job) := by
  refine (h.isLocked _).attempt.bind fun r => ?_
  split
  · exact Leaves.pure _
  · exact (h.work _ _).attempt.bind fun _ => Leaves.pure _

theorem acknowledge (h : d.IsBeside view) (m : Message) : Leaves view (d.acknowledge m) :=
  h.onQueue _ (d.queue.leaves_ack _)

/-- Running a message leaves what jobs and queues leave. -/
theorem runMessage (h : d.IsBeside view) (m : Message) : Leaves view (d.runMessage m) := by
  unfold Deployment.runMessage
  split
  · exact (h.acknowledge m).bind fun _ => Leaves.pure _
  · exact Leaves.throw _
  · refine (h.runJob _).bind fun run => (h.acknowledge m).bind fun _ => ?_
    split
    · exact Leaves.pure _
    · exact Leaves.pure _
    · exact Leaves.throw _

end IsBeside

end Deployment

/-! ## What the cache has -/

namespace World

/-- What the cache has under a full key until when, unless that time is over. -/
def fresh (d : Deployment σ) (w : World σ) (full : String) : Option (Json × Option Float) :=
  d.cache.fresh (w.cache, w.host) full

/-- What the cache has, and the time. -/
def shelfLife (d : Deployment σ) (full : String) (w : World σ) : Option (Json × Option Float) × Float :=
  (w.fresh d full, w.host.network.now)

end World

theorem Deployment.isBeside_shelfLife (d : Deployment σ) (full : String) :
    d.IsBeside (World.shelfLife d full) where
  ask _ _ := rfl
  has key w := congrArg₂ Prod.mk (congrFun (Cache.leaves_fresh_has key (w.cache, w.host)) full)
    (congrArg Prod.fst (Cache.leaves_host_has Host.IsQuiet.standing key (w.cache, w.host)))
  get key w := congrArg₂ Prod.mk (congrFun (Cache.leaves_fresh_get key (w.cache, w.host)) full)
    (congrArg Prod.fst (Cache.leaves_host_get Host.IsQuiet.standing key (w.cache, w.host)))
  number _ _ := rfl
  onQueue x hx w := by
    have hsame := hx (w.queue, w.host)
    simp only [Queue.outside, Prod.mk.injEq] at hsame
    unfold World.shelfLife World.fresh Cache.fresh Cache.entry FactIndex.onQueue
    rw [outcome_onPart]
    dsimp only
    rw [hsame.1, hsame.2.1]

namespace World

/-- The time of what is set now, for as long as changes are kept. -/
def limit (d : Deployment σ) (now : Float) : Except Failure (Option Float) :=
  d.cache.limitOf now (.float d.settings.retry.changesLifetimeSeconds)

/-- The cache has a change under a full key that was set at a time, as long as that is not over. -/
def Holds (d : Deployment σ) (w : World σ) (full : String) (change : Change) (time : Float) : Prop :=
  ∃ limit, World.limit d time = .ok limit ∧
    w.fresh d full = if d.cache.isOver w.host.network.now limit then none
      else some (d.cache.form change.toJson, limit)

end World

namespace WriteCall

/-- A change that is put off is held from now on; any other write leaves what the cache has. -/
theorem meets_run_shelfLife (hcache : d.cache.IsUsable .waiting d.settings.retry.changesLifetimeSeconds)
    (call : WriteCall) (full : String) : (call.run d).Meets w fun r after =>
      match call, r with
      | .replicate change, .ok false => ∀ own, d.cache.fullKey (.str (Change.key change.subject)) = .ok own →
          if own = full then
            after.Holds d full change w.host.network.now ∧ after.host.network.now = w.host.network.now
          else after.shelfLife d full = w.shelfLife d full
      | _, _ => after.shelfLife d full = w.shelfLife d full := by
  have hbeside := d.isBeside_shelfLife full
  cases call with
  | create e => exact hbeside.writeOrDefer _ (hbeside.indexEntity e) w
  | delete ids isConcept =>
      rw [run_delete]
      exact hbeside.writeOrDefer _ ((hbeside.bulk _).bind fun _ => Leaves.pure _) w
  | replicate change =>
      have hwrite : Leaves (World.shelfLife d full) ((replicate change).write d) :=
        (hbeside.replicate change).bind fun _ => Leaves.pure _
      have htried : (d.writeOrDefer (d.replication change) ((replicate change).write d)).Meets w
          fun _ t => t.shelfLife d full = w.shelfLife d full := hbeside.writeOrDefer _ hwrite w
      refine htried.bind (fun isDone t ht => ?_) fun e t ht => ht
      cases isDone with
      | true => exact Meets.pure ht
      | false =>
          have hvalue : change.toJson ≠ .null := nofun
          obtain ⟨own, limit, site, hput, hfull, hlimit, hnow, hself, hothers⟩ :=
            Cache.outcome_put_entry hcache (Change.key change.subject) hvalue (t.cache, t.host)
          have hsave : (d.saveChange change).outcome t =
              (.ok (), { t with cache := site.1, host := site.2 }) :=
            congrArg (fun put : Except Failure Unit × Cache.Site =>
              (put.1, ({ t with cache := put.2.1, host := put.2.2 } : World σ))) hput
          have hclock : t.host.network.now = w.host.network.now := congrArg Prod.snd ht
          refine Meets.bind_of_ok hsave (Meets.pure fun own' hown' => ?_)
          cases hfull.symm.trans hown'
          split
          · rename_i heq
            refine ⟨⟨limit, hclock ▸ hlimit, ?_⟩, hnow.trans hclock⟩
            show d.cache.fresh site full = if d.cache.isOver site.2.network.now limit then none else _
            unfold Cache.fresh
            rw [← heq, hself]
            by_cases hover : d.cache.isOver site.2.network.now limit = true <;> simp [Option.filter, hover]
          · rename_i hne
            refine Eq.trans ?_ ht
            refine congrArg₂ Prod.mk ?_ hnow
            show d.cache.fresh site full = d.cache.fresh (t.cache, t.host) full
            unfold Cache.fresh
            rw [hothers full hne, hnow]

end WriteCall

/-! ## What has been put off last -/

/-- The change of an entity that was put off last, and when, after the writing of a change at a time. -/
def Change.deferral (change : Change) (e : Entity) (now : Float) (last : Option (Change × Float)) :
    Except Failure Bool → Option (Change × Float)
  | .ok false => if change.subject.hash = e.hash then some (change, now) else last
  | _ => last

/-- The change of an entity that was put off last, and when, after something more has happened. -/
def Event.deferral (d : Deployment σ) (e : Entity) (w : World σ) (last : Option (Change × Float)) :
    Event σ → Option (Change × Float)
  | .write (.replicate change) =>
    change.deferral e w.host.network.now last (((WriteCall.replicate change).run d).outcome w).1
  | _ => last

namespace World

/-- The change of an entity that was put off last, and when. -/
def lastDeferral (d : Deployment σ) (e : Entity) (w : World σ) (last : Option (Change × Float)) :
    List (Event σ) → Option (Change × Float)
  | [] => last
  | event :: rest => lastDeferral d e (event.after d w) (event.deferral d e w last) rest

/-- A job for the change of an entity is held by the queue. -/
def Awaits (d : Deployment σ) (w : World σ) (e : Entity) : Prop :=
  ∃ id l job, w.load? d id = some l ∧ l.value = Job.toMessage job ∧ job.replicate = some e.hash

end World

/-- A change can be read back from where it is kept. In memory its properties have to be told apart, on the
server its numbers are read back, too. -/
structure Deployment.CanKeep (d : Deployment σ) (change : Change) : Prop where
  distinct : change.properties.keys.Nodup
  floats : d.cache.storage ≠ .memory → ∀ x ∈ change.floats, Json.ReadsFloat .stored x

namespace World

/-- The cache has the change of an entity that was put off last as long as its time is not over, and no job
for it is held if none was put off. -/
structure Remembers (d : Deployment σ) (e : Entity) (last : Option (Change × Float)) (w : World σ) : Prop where
  awaited : w.Awaits d e → last ≠ none
  held : ∀ change time, last = some (change, time) → d.CanKeep change ∧ change.subject.hash = e.hash ∧
    ∀ full, d.cache.fullKey (.str (Change.key e)) = .ok full → w.Holds d full change time

variable {w' : World σ} {e : Entity} {last : Option (Change × Float)}

theorem Holds.congr {full : String} {change : Change} {time : Float} (h : w.Holds d full change time)
    (heq : w'.shelfLife d full = w.shelfLife d full) : w'.Holds d full change time := by
  obtain ⟨limit, hlimit, hfresh⟩ := h
  simp only [shelfLife, Prod.mk.injEq] at heq
  exact ⟨limit, hlimit, heq.2 ▸ heq.1.trans hfresh⟩

/-- What the cache has is over when its time has come. -/
theorem Holds.wait {full : String} {change : Change} {time seconds : Float}
    (h : w.Holds d full change time) (hle : w.host.network.now ≤ w.host.network.now + seconds) :
    ((Event.wait seconds : Event σ).after d w).Holds d full change time := by
  obtain ⟨limit, hlimit, hfresh⟩ := h
  refine ⟨limit, hlimit, ?_⟩
  have hentry : d.cache.entry (w.cache, ((Event.wait seconds : Event σ).after d w).host) full =
      d.cache.entry (w.cache, w.host) full := rfl
  have hlater : ((Event.wait seconds : Event σ).after d w).fresh d full =
      (w.fresh d full).filter fun e => !d.cache.isOver (w.host.network.now + seconds) e.2 :=
    Cache.fresh_of_le hentry hle
  show _ = if d.cache.isOver (w.host.network.now + seconds) limit then none else _
  rw [hlater, hfresh]
  cases hover : d.cache.isOver w.host.network.now limit with
  | true => simp [Cache.isOver_of_le hle hover]
  | false => cases hlate : d.cache.isOver (w.host.network.now + seconds) limit <;> simp [Option.filter, hlate]

theorem Remembers.of_shelfLife (h : w.Remembers d e last)
    (hawaits : w'.Awaits d e → w.Awaits d e)
    (heq : ∀ full, d.cache.fullKey (.str (Change.key e)) = .ok full →
      w'.shelfLife d full = w.shelfLife d full) : w'.Remembers d e last where
  awaited hw' := h.awaited (hawaits hw')
  held change time hlast := by
    obtain ⟨hkeep, hsubject, hheld⟩ := h.held change time hlast
    exact ⟨hkeep, hsubject, fun full hfull => (hheld full hfull).congr (heq full hfull)⟩

theorem Awaits.of_load? (h : w'.Awaits d e) (heq : w'.load? d = w.load? d) : w.Awaits d e := by
  obtain ⟨id, l, job, hheld, hrest⟩ := h
  exact ⟨id, l, job, heq ▸ hheld, hrest⟩

/-- Running a message puts back at most the job that it carried. -/
theorem Awaits.of_ends {m : Message} {job : Job} {locked : Bool} {r : Except Failure (Option JobStatus)}
    (h : w'.Awaits d e) (hends : d.Ends w m (Deployment.resumed locked job) r w')
    (hvalue : m.value = job.toMessage) (hheld : w.load? d m.id = some m.load) : w.Awaits d e := by
  obtain ⟨id, l, waiting, hload, hwaiting, hsubject⟩ := h
  have hother : ∀ id, (if m.id = id then none else w.load? d id) = some l → w.Awaits d e := by
    intro id hload
    split at hload
    · cases hload
    · exact ⟨id, l, waiting, hload, hwaiting, hsubject⟩
  obtain ⟨-, hcourse⟩ := hends
  split at hcourse
  · rw [hcourse.load?] at hload
    split at hload
    · cases hload
      have hsame := Job.toMessage_injective hwaiting
      refine ⟨m.id, m.load, job, hheld, hvalue, ?_⟩
      rw [← hsubject, ← hsame]
      cases locked <;> rfl
    · exact hother id hload
  · rw [hcourse.2.load?] at hload
    exact hother id hload
  · rw [hcourse.load?] at hload
    exact hother id hload

/-! ### Steps -/

/-- A write that is put off is remembered, and any other changes nothing of what is. -/
theorem Remembers.write (hw : w.IsGoing d) (hdefer : d.isDeferring = true)
    (hcache : d.cache.IsUsable .waiting d.settings.retry.changesLifetimeSeconds) {call : WriteCall}
    (hkeep : ∀ change, call = .replicate change → d.CanKeep change) (h : w.Remembers d e last) :
    ((Event.write call : Event σ).after d w).Remembers d e
      ((Event.write call : Event σ).deferral d e w last) := by
  have hputs := Event.after_write hw hdefer hcache call
  have hlife := fun full => call.meets_run_shelfLife (w := w) hcache full
  have hafter : (Event.write call : Event σ).after d w = ((call.run d).outcome w).2 := by
    unfold Event.after Event.action
    rw [outcome_bind]
    rcases (call.run d).outcome w with ⟨_ | _, _⟩ <;> rfl
  rcases hr : (call.run d).outcome w with ⟨r, after⟩
  rw [hafter, hr] at hputs ⊢
  replace hlife := fun full => (hlife full).of_outcome hr
  -- whatever the write is, unless it is the entity's own change that has been put off
  have hsame : (Event.write call : Event σ).deferral d e w last = last →
      (∀ full, d.cache.fullKey (.str (Change.key e)) = .ok full →
        after.shelfLife d full = w.shelfLife d full) →
      ¬ (r = .ok false ∧ (call.job d).replicate = some e.hash) →
      after.Remembers d e ((Event.write call : Event σ).deferral d e w last) := by
    intro hlast hshelf hnot
    rw [hlast]
    refine h.of_shelfLife ?_ hshelf
    rintro ⟨id, l, job, hload, hvalue, hsubject⟩
    unfold Deployment.Puts at hputs
    split at hputs
    · rename_i hdeferred
      obtain ⟨-, hheld, -⟩ := hw.adds hputs
      rw [hheld] at hload
      split at hload
      · cases hload
        cases Job.toMessage_injective hvalue
        exact absurd ⟨hdeferred, hsubject⟩ hnot
      · exact ⟨id, l, job, hload, hvalue, hsubject⟩
    · refine ⟨id, l, job, ?_, hvalue, hsubject⟩
      rw [← hload]
      exact congrArg (fun bearing => bearing.1.load? id) hputs.symm
  cases call with
  | create entity => exact hsame rfl (fun full _ => hlife full) fun hnot => by cases hnot.2
  | delete ids isConcept => exact hsame rfl (fun full _ => hlife full) fun hnot => by cases hnot.2
  | replicate change =>
      have hdeferral : (Event.write (.replicate change) : Event σ).deferral d e w last =
          change.deferral e w.host.network.now last r :=
        congrArg (fun done : Except Failure Bool × World σ =>
          change.deferral e w.host.network.now last done.1) hr
      rcases r with _ | _ | _
      · exact hsame hdeferral (fun full _ => hlife full) fun hnot => by cases hnot.1
      · have hsaved : ∀ full own, d.cache.fullKey (.str (Change.key change.subject)) = .ok own →
            if own = full then
              after.Holds d full change w.host.network.now ∧ after.host.network.now = w.host.network.now
            else after.shelfLife d full = w.shelfLife d full := hlife
        by_cases hown : change.subject.hash = e.hash
        · have hkeys : Change.key change.subject = Change.key e := congrArg ("changediff:" ++ ·) hown
          rw [hdeferral, Change.deferral, if_pos hown]
          refine ⟨by rintro _ ⟨⟩, ?_⟩
          rintro _ _ ⟨⟩
          refine ⟨hkeep change rfl, hown, fun full hfull => ?_⟩
          have hheld := hsaved full full (hkeys ▸ hfull)
          rw [if_pos rfl] at hheld
          exact hheld.1
        · rw [Change.deferral, if_neg hown] at hdeferral
          refine hsame hdeferral (fun full hfull => ?_) fun hnot => hown (Option.some.inj hnot.2)
          obtain ⟨own, hfullOwn⟩ := d.cache.exists_fullKey (Change.key change.subject)
          have hother := hsaved full own hfullOwn
          rwa [if_neg] at hother
          rintro rfl
          exact hown (String.append_right_inj _ |>.mp (Cache.fullKey_inj hfullOwn hfull))
      · exact hsame hdeferral (fun full _ => hlife full) fun hnot => by cases hnot.1

/-- A run changes nothing of what is remembered. -/
theorem Remembers.run (hw : w.IsGoing d) (hlinked : ∀ w : World σ, w.IsLinked d)
    (h : w.Remembers d e last) (count : Int) :
    ((Event.run count : Event σ).after d w).Remembers d e last := by
  have hbeside := fun full => d.isBeside_shelfLife (σ := σ) full
  have hrun := Event.after_run_noting (h := fun _ _ g => g) (f := fun _ _ (_ : Unit) => ())
    (P := fun w _ => w.Remembers d e last) hlinked (fun w _ count ms pulled hw h hpulls => ?_)
    (fun w _ m job locked hw h hvalue hheld _ r after hrun hends _ => ?_) hw h count (g := ())
  · exact hrun.2
  · refine h.of_shelfLife (fun hawaits => hawaits.of_load? hpulls.load?) fun full _ => ?_
    have hleft := (hbeside full).onQueue _ (d.queue.leaves_pull { count := some count }) w
    rwa [hpulls.outcome] at hleft
  · refine h.of_shelfLife (fun hawaits => hawaits.of_ends hends hvalue hheld) fun full _ => ?_
    have hleft := (hbeside full).runMessage m w
    rwa [hrun] at hleft

/-- Whatever happens, the change that was put off last is remembered. -/
theorem Remembers.after (hw : w.IsGoing d) (hdefer : d.isDeferring = true)
    (hcache : d.cache.IsUsable .waiting d.settings.retry.changesLifetimeSeconds) {event : Event σ}
    (hfair : event.IsFair d w) (hkeep : ∀ change, event = .write (.replicate change) → d.CanKeep change)
    (h : w.Remembers d e last) :
    (event.after d w).Remembers d e (event.deferral d e w last) := by
  have hkey : ∀ full, d.cache.fullKey (.str (Change.key e)) = .ok full →
      ∀ lock, d.cache.fullKey (d.lockKey IndexType.data) = .ok lock → lock ≠ full := by
    rintro full hfull lock hlock rfl
    exact d.key_ne_lock e (Cache.fullKey_inj hfull hlock)
  cases event with
  | write call => exact h.write hw hdefer hcache fun change heq => hkeep change (heq ▸ rfl)
  | run count => exact h.run hw (fun w => Cache.isConnected_of_isUsable hcache _) count
  | wait seconds =>
      refine ⟨fun hawaits => h.awaited (hawaits.of_load? rfl), fun change time hlast => ?_⟩
      obtain ⟨hkeeps, hsubject, hheld⟩ := h.held change time hlast
      exact ⟨hkeeps, hsubject, fun full hfull => (hheld full hfull).wait hfair.1⟩
  | turn change => exact h.of_shelfLife id fun _ _ => rfl
  | lock version =>
      have hbearing := Deployment.leaves_bearing_put (d := d) (d.lockKey IndexType.data) version .null w
      refine h.of_shelfLife (fun hawaits => hawaits.of_load? ?_) fun full hfull => ?_
      · exact congrArg (fun bearing => bearing.1.load?) hbearing
      · exact congrArg₂ Prod.mk (Cache.leaves_fresh_put (hkey full hfull) (w.cache, w.host))
          (congrArg (fun bearing => bearing.2.2.1) hbearing)
  | unlock =>
      have hbearing := Deployment.leaves_bearing_releaseLock (d := d) w
      refine h.of_shelfLife (fun hawaits => hawaits.of_load? ?_) fun full hfull => ?_
      · exact congrArg (fun bearing => bearing.1.load?) hbearing
      · have hfresh : Leaves (fun w => w.fresh d full) (d.releaseLock IndexType.data) :=
          Deployment.leaves_releaseLock fun w =>
            Cache.leaves_fresh_delete (hkey full hfull) (w.cache, w.host)
        exact congrArg₂ Prod.mk (hfresh w) (congrArg (fun bearing => bearing.2.2.1) hbearing)

/-- Whatever has happened, the change that was put off last is remembered. -/
theorem Remembers.later (hdefer : d.isDeferring = true)
    (hcache : d.cache.IsUsable .waiting d.settings.retry.changesLifetimeSeconds) {events : List (Event σ)}
    (hw : w.IsGoing d) (hfair : w.IsFair d events)
    (hkeep : ∀ change, Event.write (.replicate change) ∈ events → d.CanKeep change)
    (h : w.Remembers d e last) : (w.later d events).Remembers d e (w.lastDeferral d e last events) := by
  induction events generalizing w last with
  | nil => exact h
  | cons event rest ih =>
      refine ih (hw.after hdefer hcache hfair.1) hfair.2
        (fun change hmem => hkeep change (List.mem_cons_of_mem _ hmem)) ?_
      exact h.after hw hdefer hcache hfair.1 fun change heq => hkeep change (heq ▸ List.mem_cons_self)

end World

/-! ## What a job finds -/

namespace Deployment

variable {e : Entity} {change : Change} {full : String} {limit : Option Float}

/-- A change is fetched while its time is not over. -/
theorem fetchChange_of_fresh (hlink : w.IsLinked d) (hkeep : d.CanKeep change)
    (hfull : d.cache.fullKey (.str (Change.key e)) = .ok full)
    (hfresh : w.fresh d full = if d.cache.isOver w.host.network.now limit then none
      else some (d.cache.form change.toJson, limit)) :
    ((d.fetchChange e).outcome w).1 =
      .ok (if d.cache.isOver w.host.network.now limit then none else some change) := by
  have hserved : (w.surroundings d).2.served full = (w.fresh d full).map (·.1) := Cache.served_eq full
  have hread : d.cache.readBack (d.cache.form change.toJson) = .ok change.toJson :=
    Cache.readBack_form fun hserver =>
      Change.isReadable_toJson hkeep.distinct (hkeep.floats hserver)
  rw [fetchChange_fst hlink]
  unfold keptChange
  rw [hfull]
  simp only [Except.bind, Bind.bind, hserved, hfresh]
  cases d.cache.isOver w.host.network.now limit with
  | true => rfl
  | false =>
    show (do some <$> (Change.read (← d.cache.readBack (d.cache.form change.toJson))).toExcept) = _
    rw [hread]
    exact congrArg (fun read : Schema.Checked Change => some <$> read.toExcept)
      (Change.read_toJson change hkeep.distinct)

/-- A job whose change is not there any more succeeds, and nothing is written. -/
theorem runJob_of_lost (hlink : w.IsLinked d) (hfree : w.IsFree d) (hping : (d.ping.outcome w).1 = .ok true)
    (hplain : e.IsPlain) (hfull : d.cache.fullKey (.str (Change.key e)) = .ok full)
    (hlost : w.fresh d full = none) {job : Job} (hdelete : job.delete = none) (hcreate : job.create = none)
    (hsubject : job.replicate = some e.hash) : ∃ after,
      (d.runJob job).outcome w = (.ok ⟨job, .ok .succeeded⟩, after) ∧ after.written = w.written ∧
        after.engine = (d.client.send .ping w.engine).2 := by
  have hlocked := isLocked_eq hfree hlink
  have hsight : ((d.isLocked IndexType.data).outcome w).2.sight d = w.sight d :=
    sight_of_leaves (isAside_footing.isLocked IndexType.data) rfl
  have hlife := (d.isBeside_shelfLife full).isLocked IndexType.data w
  have hwritten : ((d.isLocked IndexType.data).outcome w).2.written = w.written :=
    Cache.leaves_host_has isQuiet_written _ (w.cache, w.host)
  have hengine : ((d.isLocked IndexType.data).outcome w).2.engine = w.engine := rfl
  have hattempt : ((Effect.attempt (d.isLocked IndexType.data)).outcome w).1 = .ok (.ok false) := by
    rw [outcome_attempt, hlocked]
  unfold runJob
  rw [outcome_bind_of_answer hattempt]
  simp only [outcome_attempt]
  generalize ((d.isLocked IndexType.data).outcome w).2 = looked at hsight hlife hwritten hengine ⊢
  have hpinged := outcome_ping d looked
  rw [ping_fst_congr hengine, hping] at hpinged
  have hreplay : ∃ after, (d.replay job).outcome (looked.asked d .ping) = (.ok (), after) ∧
      after.written = w.written ∧ after.engine = (d.client.send .ping w.engine).2 := by
    have hserved : ((looked.asked d .ping).surroundings d).2.served full = none := by
      refine (Cache.served_eq full).trans ?_
      rw [show d.cache.fresh ((looked.asked d .ping).cache, (looked.asked d .ping).host) full = none from
        (congrArg Prod.fst hlife).trans hlost]
      rfl
    have hfetch : ((d.fetchChange { e with sortkey := none }).outcome (looked.asked d .ping)).1 = .ok none :=
      fetchChange_eq_none (hlink.of_sight hsight) hfull hserved
    have hfetched : ((d.fetchChange { e with sortkey := none }).outcome (looked.asked d .ping)).2.written =
        (looked.asked d .ping).written :=
      leaves_fetchChange (fun w => Cache.leaves_host_get isQuiet_written _ (w.cache, w.host)) _
    have hsame : ((d.fetchChange { e with sortkey := none }).outcome (looked.asked d .ping)).2.engine =
        (looked.asked d .ping).engine := leaves_fetchChange (fun _ => rfl) _
    refine ⟨_, ?_, hfetched.trans hwritten, hsame.trans ?_⟩
    · unfold replay
      rw [hdelete, hcreate, hsubject]
      simp only [Entity.ofHash_hash hplain]
      refine (outcome_bind_of_ok rfl _).trans ?_
      rw [outcome_bind_of_answer hfetch]
      rfl
    · rw [World.asked_engine, hengine]
  obtain ⟨after, houtcome, hnone, hpinging⟩ := hreplay
  refine ⟨after, ?_, hnone, hpinging⟩
  have hwork : (d.work job false).outcome looked = (.ok .succeeded, after) := by
    have hattempted : (Effect.attempt (d.replay job)).outcome (looked.asked d .ping) =
        (.ok (.ok ()), after) := by
      rw [outcome_attempt, houtcome]
    unfold work
    simp only [Bool.false_eq_true, if_false]
    rw [outcome_bind_of_ok hpinged]
    simp only [Bool.not_true, Bool.false_eq_true, if_false]
    rw [outcome_bind_of_ok hattempted]
    rfl
  have hattempted : (Effect.attempt (d.work job false)).outcome looked =
      (.ok (.ok .succeeded), after) := by
    rw [outcome_attempt, hwork]
  simp only [Bool.false_eq_true, if_false]
  rw [outcome_bind_of_ok hattempted]
  rfl

end Deployment

namespace World

/-- While a job for the change of an entity is held, the change that was put off last is fetched as long as its
own time is not over, however long the job still has to wait. Afterwards nothing is fetched, and the job
succeeds without having written anything. -/
theorem fetchChange_of_awaits (hdefer : d.isDeferring = true)
    (hcache : d.cache.IsUsable .waiting d.settings.retry.changesLifetimeSeconds) {events : List (Event σ)}
    (hw : w.IsGoing d) (hempty : ∀ id, w.load? d id = none) (hfair : w.IsFair d events)
    (hkeep : ∀ change, Event.write (.replicate change) ∈ events → d.CanKeep change) {e : Entity}
    (hplain : e.IsPlain) (hawaits : (w.later d events).Awaits d e) : ∃ change time limit,
      w.lastDeferral d e none events = some (change, time) ∧ World.limit d time = .ok limit ∧
      let now := w.later d events
      let isOver := d.cache.isOver now.host.network.now limit
      ((d.fetchChange e).outcome now).1 = .ok (if isOver then none else some change) ∧
      (isOver = true → now.IsFree d → (d.ping.outcome now).1 = .ok true →
        ∀ job : Job, job.delete = none → job.create = none → job.replicate = some e.hash → ∃ after,
          (d.runJob job).outcome now = (.ok ⟨job, .ok .succeeded⟩, after) ∧
            after.written = now.written ∧ after.engine = (d.client.send .ping now.engine).2) := by
  have hstart : w.Remembers d e none := by
    refine ⟨?_, nofun⟩
    rintro ⟨id, l, job, hload, -⟩
    exact absurd ((hempty id).symm.trans hload) nofun
  have hremembers := hstart.later hdefer hcache hw hfair hkeep
  have hlink : (w.later d events).IsLinked d := Cache.isConnected_of_isUsable hcache _
  cases hlast : w.lastDeferral d e none events with
  | none => exact absurd hlast (hremembers.awaited hawaits)
  | some last =>
      obtain ⟨change, time⟩ := last
      obtain ⟨hkeeps, -, hheld⟩ := hremembers.held change time hlast
      obtain ⟨full, hfull⟩ := d.cache.exists_fullKey (Change.key e)
      obtain ⟨limit, hlimit, hfresh⟩ := hheld full hfull
      refine ⟨change, time, limit, rfl, hlimit, Deployment.fetchChange_of_fresh hlink hkeeps hfull hfresh,
        fun hover hfree hping job hdelete hcreate hsubject => ?_⟩
      rw [hover, if_pos rfl] at hfresh
      exact Deployment.runJob_of_lost hlink hfree hping hplain hfull hfresh hdelete hcreate hsubject

/-! ### A rebuild that takes too long -/

private def awaitingDeployment : Deployment Cluster where
  client := Cluster.client
  cache := {}
  queue := {}

private def silentWorld : World Cluster where
  engine := { isAvailable := false }
  catalog := { next := 3 }

private def awaitedTown : Change where
  subject := { title := "Town" }
  subjectNumber := 1

/-- A change is put off, a rebuild begins, and more than a day passes. -/
private def longRebuild : List (Event Cluster) :=
  [.write (.replicate awaitedTown), .lock (.str "v2"), .wait 86401]

/-- The job still waits, and what it is to write is gone. -/
theorem fetchChange_of_awaits_rebuild :
    silentWorld.IsGoing awaitingDeployment ∧ (∀ id, silentWorld.load? awaitingDeployment id = none) ∧
      silentWorld.IsFair awaitingDeployment longRebuild ∧ awaitedTown.subject.IsPlain ∧
      (silentWorld.later awaitingDeployment longRebuild).Awaits awaitingDeployment awaitedTown.subject ∧
      ((awaitingDeployment.fetchChange awaitedTown.subject).outcome
        (silentWorld.later awaitingDeployment longRebuild)).1 = .ok none := by
  obtain ⟨hgoing, hempty⟩ := isGoing_of_empty (d := awaitingDeployment) (w := silentWorld) rfl rfl
    (by decide +kernel)
  have hfair : silentWorld.IsFair awaitingDeployment longRebuild := by
    refine ⟨trivial, trivial, ⟨?_, fun hserver => absurd rfl hserver⟩, trivial⟩
    decide +kernel
  have hplain : awaitedTown.subject.IsPlain := by decide
  have hcache : awaitingDeployment.cache.IsUsable .waiting
      awaitingDeployment.settings.retry.changesLifetimeSeconds := nofun
  have hawaits : (silentWorld.later awaitingDeployment longRebuild).Awaits awaitingDeployment
      awaitedTown.subject := by
    refine ⟨"msg-1", _, awaitingDeployment.replication awaitedTown, rfl, rfl, rfl⟩
  have hkeep : ∀ change, Event.write (.replicate change) ∈ longRebuild →
      awaitingDeployment.CanKeep change := by
    intro change hmem
    simp only [longRebuild, List.mem_cons, Event.write.injEq, WriteCall.replicate.injEq, List.not_mem_nil,
      or_false, reduceCtorEq] at hmem
    exact hmem ▸ ⟨by decide, fun hserver => absurd rfl hserver⟩
  obtain ⟨change, time, limit, hlast, hlimit, hfetch, -⟩ :=
    fetchChange_of_awaits rfl hcache hgoing hempty hfair hkeep hplain hawaits
  have hover : awaitingDeployment.cache.isOver
      (silentWorld.later awaitingDeployment longRebuild).host.network.now limit = true := by
    cases hlast
    cases hlimit
    decide +kernel
  refine ⟨hgoing, hempty, hfair, hplain, hawaits, hfetch.trans ?_⟩
  rw [hover]
  rfl

end World

end FactIndex
