import FactIndex.Proofs.Queue.Flight
import FactIndex.Proofs.Update.Deferral

/-!
# What jobs see

A job sees what the cache serves, whether the cache can be reached, and whether a rebuild is going on.
Neither its own steps nor those of the queue change any of that.

## Main definitions

* `World.sight`: what jobs see.
* `World.footing`: what all steps leave that are not steps of the queue.
* `Deployment.IsAside`: views that requests and looks leave, as the footing is.
* `Deployment.replay_eq`: a job is a deletion, a creation and a change, one after the other.
* `Deployment.IsAside.replay`, `Deployment.leaves_sight_onQueue`: what jobs see stays.
-/

namespace FactIndex

open FactIndex.Effect FactIndex.KeyValue

variable {σ α : Type}

/-! ## What a job sees -/

/-- What jobs see of the surroundings: what the cache serves, whether it can be reached, and whether a
rebuild is going on. -/
def World.sight (d : Deployment σ) (w : World σ) : (String → Option Json) × Bool × Except Failure Bool :=
  ((w.surroundings d).2.served, (w.surroundings d).2.isConnected,
    (d.cache.fullKey (d.lockKey IndexType.data)).map (w.surroundings d).2.answers)

/-- What all steps of the runner leave, but for those on the queue. -/
def World.footing (d : Deployment σ) (w : World σ) :
    Queue.State × Server × (String → Option Json) × Bool × Except Failure Bool :=
  (w.queue, w.host.server, w.sight d)

variable {d : Deployment σ} {w w' : World σ}

theorem World.IsLinked.of_sight (h : w.IsLinked d) (heq : w'.sight d = w.sight d) : w'.IsLinked d := by
  have hlink : (w'.sight d).2.1 = (w.sight d).2.1 := by rw [heq]
  exact hlink.trans h

theorem World.isFree_iff : w.IsFree d ↔ (w.sight d).2.2 = .ok false := by
  obtain ⟨full, hfull⟩ := d.cache.exists_fullKey ("lock:" ++ d.indexName IndexType.data)
  have hkey : d.cache.fullKey (d.lockKey IndexType.data) = .ok full := hfull
  have hsight : (w.sight d).2.2 = .ok ((w.surroundings d).2.answers full) :=
    congrArg (Except.map _) hkey
  rw [hsight]
  constructor
  · exact fun h => congrArg Except.ok (h full hkey)
  · intro h other hother
    cases hkey.symm.trans hother
    exact Except.ok.inj h

theorem World.IsFree.of_sight (h : w.IsFree d) (heq : w'.sight d = w.sight d) : w'.IsFree d := by
  rw [World.isFree_iff] at h ⊢
  rwa [heq]

namespace Deployment

theorem leaves_footing_onCache {x : Effect Cache.Site α} (hview : Leaves (d.cache.view .waiting) x)
    (hserver : Leaves (fun site : Cache.Site => site.2.server) x) :
    Leaves (World.footing d) (onCache x) := by
  intro w
  have hsight := hview (w.cache, w.host)
  have hsame := hserver (w.cache, w.host)
  unfold World.footing World.sight World.surroundings onCache
  rw [outcome_onPart]
  dsimp only at hsame ⊢
  rw [hsight, hsame]

/-! ## What requests and looks leave -/

/-- A view of the world that is left by requests to the engine, by looks into the cache, and by what is
numbered. -/
structure IsAside {β : Type} (d : Deployment σ) (view : World σ → β) : Prop where
  ask : ∀ r, Leaves view (ask d r)
  has : ∀ key, Leaves view (onCache (d.cache.has .waiting key))
  get : ∀ key, Leaves view (onCache (d.cache.get .waiting key))
  number : ∀ item, Leaves view (numberOf item)

theorem isAside_footing : d.IsAside (World.footing d) where
  ask _ _ := rfl
  has _ := leaves_footing_onCache (Cache.leaves_has _ _ _)
    (Cache.leaves_host_has KeyValue.Host.IsQuiet.server _)
  get _ := leaves_footing_onCache (Cache.leaves_get _ _ _)
    (Cache.leaves_host_get KeyValue.Host.IsQuiet.server _)
  number _ _ := rfl

theorem leaves_ping {β : Type} {view : World σ → β} (hask : Leaves view (ask d .ping)) :
    Leaves view d.ping := by
  refine hask.bind fun r => ?_
  split
  · exact Leaves.pure _
  · exact Leaves.throw _
  · exact Leaves.pure _

namespace IsAside

variable {β : Type} {view : World σ → β}

theorem isLocked (h : d.IsAside view) (type : String) : Leaves view (d.isLocked type) := h.has _

theorem demand (h : d.IsAside view) (r : Request) : Leaves view (d.demand r) := leaves_demand (h.ask r)

theorem bulk (h : d.IsAside view) (operations : List Json) : Leaves view (d.bulk operations) :=
  leaves_bulk h.ask operations

theorem writeIndex (h : d.IsAside view) (type : String) : Leaves view (d.writeIndex type) :=
  leaves_writeIndex (h.get _)

theorem replicate (h : d.IsAside view) (change : Change) : Leaves view (d.replicate change) :=
  (h.writeIndex _).bind fun _ => Leaves.bind (fun _ => rfl) fun _ => h.bulk _

theorem indexEntity (h : d.IsAside view) (e : Entity) : Leaves view (d.indexEntity e) :=
  (h.number _).bind fun _ => (h.demand _).bind fun _ => Leaves.pure _

end IsAside

/-! ## The parts of a job -/

/-- The deletion of a job. -/
def replayDeletion (d : Deployment σ) (job : Job) : Action σ Unit :=
  match job.delete with
  | some ids => d.deleteDocuments (ids.map Json.int) job.isConcept
  | none => pure ()

/-- The creation of a job. -/
def replayCreation (d : Deployment σ) (job : Job) : Action σ Unit :=
  match job.create with
  | some hash => Effect.ofExcept (Entity.ofHash hash) >>= d.indexEntity
  | none => pure ()

/-- The change of a job. -/
def replayChange (d : Deployment σ) (job : Job) : Action σ Unit :=
  match job.replicate with
  | some hash => do
    let subject ← .ofExcept (Entity.ofHash hash)
    if let some change ← d.fetchChange subject then
      let _ ← d.replicate change
  | none => pure ()

theorem replay_eq (job : Job) : d.replay job =
    (do d.replayDeletion job; d.replayCreation job; d.replayChange job) := by
  unfold replay replayDeletion replayCreation replayChange
  cases job.create with
  | none => cases job.delete <;> cases job.replicate <;> rfl
  | some hash =>
      simp only [bind_assoc]
      cases job.delete <;> cases job.replicate <;> rfl

namespace IsAside

variable {β : Type} {view : World σ → β}

theorem replayDeletion (h : d.IsAside view) (job : Job) : Leaves view (d.replayDeletion job) := by
  unfold Deployment.replayDeletion
  split
  · exact (h.bulk _).bind fun _ => Leaves.pure _
  · exact Leaves.pure _

theorem replayCreation (h : d.IsAside view) (job : Job) : Leaves view (d.replayCreation job) := by
  unfold Deployment.replayCreation
  split
  · exact (Leaves.ofExcept _).bind fun e => h.indexEntity e
  · exact Leaves.pure _

theorem replayChange (h : d.IsAside view) (job : Job) : Leaves view (d.replayChange job) := by
  unfold Deployment.replayChange
  split
  · refine (Leaves.ofExcept _).bind fun e => (leaves_fetchChange (h.get _)).bind fun change => ?_
    split
    · exact (h.replicate _).bind fun _ => Leaves.pure _
    · exact Leaves.pure _
  · exact Leaves.pure _

/-- Doing the write of a job leaves what its parts leave. -/
theorem replay (h : d.IsAside view) (job : Job) : Leaves view (d.replay job) := by
  rw [replay_eq]
  exact (h.replayDeletion job).bind fun _ => (h.replayCreation job).bind fun _ => h.replayChange job

end IsAside

/-! ## The queue does not touch what jobs see -/

/-- The lock is not kept under a key of the queue. -/
theorem lock_notMem_keys {full : String} (hfull : d.cache.fullKey (d.lockKey IndexType.data) = .ok full) :
    full ∉ d.queue.keys := by
  -- the key of the lock ends as no part of a queue is called
  have hlock : full.toList.reverse.take 5 = ['a', 't', 'a', 'd', '-'] := by
    unfold Cache.fullKey lockKey indexName IndexType.data at hfull
    cases hscope : d.cache.scope with
    | none =>
        rw [hscope] at hfull
        cases hfull
        simp
    | some scope =>
        rw [hscope] at hfull
        dsimp only at hfull
        split at hfull
        · cases hfull
          simp
        · cases hfull
          simp [Json.plainText]
  have hpart : ∀ part ∈ ["ready", "inflight", "data"],
      (d.queue.partKey part).toList.reverse.take 5 ≠ ['a', 't', 'a', 'd', '-'] := by
    intro part hpart
    unfold Queue.partKey
    split
    · revert part
      decide
    · simp only [List.mem_cons, List.not_mem_nil, or_false] at hpart
      rcases hpart with rfl | rfl | rfl <;> simp
  intro hmem
  simp only [Queue.keys, List.mem_cons, List.not_mem_nil, or_false] at hmem
  rcases hmem with rfl | rfl | rfl
  · exact hpart "ready" (by decide) hlock
  · exact hpart "inflight" (by decide) hlock
  · exact hpart "data" (by decide) hlock

/-- What only touches the queue leaves what jobs see. -/
theorem leaves_sight_onQueue {x : Effect Queue.Site α}
    (hx : Leaves (fun site : Queue.Site => d.queue.outside site.2) x) :
    Leaves (World.sight d) (onQueue x) := by
  intro w
  have hsame := hx (w.queue, w.host)
  unfold onQueue
  rw [outcome_onPart]
  dsimp only at hsame ⊢
  generalize (x.outcome (w.queue, w.host)).2 = site at hsame
  obtain ⟨queue, host⟩ := site
  obtain ⟨full, hfull⟩ := d.cache.exists_fullKey ("lock:" ++ d.indexName IndexType.data)
  have hkey : d.cache.fullKey (d.lockKey IndexType.data) = .ok full := hfull
  have hlock := lock_notMem_keys hkey
  simp only [Queue.outside, Prod.mk.injEq] at hsame
  obtain ⟨htexts, hnow, hothers⟩ := hsame
  have hlocked := congrFun hothers full
  simp only [if_neg hlock, Prod.mk.injEq] at hlocked
  unfold World.sight World.surroundings Cache.view Cache.served
  rw [hkey]
  cases d.cache.storage with
  | memory => simp only [hnow]
  | server address options =>
      simp only [Server.get, Server.has, Table.has, htexts, hnow, hlocked, Except.map]

end Deployment

end FactIndex
