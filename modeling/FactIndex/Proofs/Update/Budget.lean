import FactIndex.Proofs.Update.Course

/-!
# How often a job is tried

As long as a job finds the search engine out of reach it is put back, and in the end it is given up. How
often it is put back depends on how often it had been put back when this began: a new job is put back as
often as is allowed. A rebuild sets the count to nothing and then counts the one time that the job is put
back for the rebuild itself, so that afterwards it is put back once less.

## Main definitions

* `Round.isMissed`: a run that found the search engine out of reach.
* `Course.fate`: the answers to a job that is put back so often and then given up.
* `Course.Follows.tries`: how often a job is put back while the search engine is out of reach.
* `Deployment.tries_course`: the same without a rebuild and after one.
-/

namespace FactIndex

open FactIndex.Effect

variable {σ : Type} {d : Deployment σ} {w : World σ} {job : Job}

namespace Round

/-- The job was put off: put back, or given up. -/
def isPutOff (r : Round) : Bool :=
  match r.answer with
  | .ok (some status) => status.isPutOff
  | _ => false

/-- No rebuild was going on, and the search engine was found to be out of reach. -/
def isMissed (r : Round) : Bool := !r.isLocked && r.isPutOff

theorem answer_of_isPutOff {r : Round} (h : r.isPutOff = true) :
    r.answer = .ok (some .requeued) ∨ r.answer = .ok (some .givenUp) := by
  unfold isPutOff at h
  split at h
  · rename_i status hanswer
    rw [hanswer]
    cases status with
    | requeued => exact .inl rfl
    | givenUp => exact .inr rfl
    | _ => cases h
  · cases h

/-- A job that was put off was put back and counted, if there was room for that, or else given up. -/
theorem Follows.cases_of_isPutOff {earlier : List Round} {r : Round} (h : r.Follows d job earlier)
    (hoff : r.isPutOff = true) {spent : Int}
    (hspent : (Deployment.resumed r.isLocked (job.after earlier)).retries = spent) :
    (r.answer = .ok (some .requeued) ∧ spent < d.settings.retry.retries ∧ r.next.isSome ∧
        (job.after (r :: earlier)).retries = spent + 1) ∨
      (r.answer = .ok (some .givenUp) ∧ d.settings.retry.retries ≤ spent ∧ r.next = none) := by
  subst hspent
  have hcases := h.next
  dsimp only at hcases
  rcases answer_of_isPutOff hoff with hanswer | hanswer
  · simp only [hanswer] at hcases
    obtain ⟨hroom, name, hnext⟩ := hcases
    exact .inl ⟨hanswer, hroom, by rw [hnext]; rfl, rfl⟩
  · simp only [hanswer] at hcases
    exact .inr ⟨hanswer, hcases⟩

end Round

namespace Course

variable {c : Course}

/-! ## Runs during a rebuild -/

/-- During a rebuild the job has only been put off. -/
def Waits (c : Course) : Prop := ∀ r ∈ c.rounds, r.isLocked = true → r.isPutOff = true

theorem Waits.after (h : c.Waits) (hw : w.IsGoing d)
    (hcache : d.cache.IsUsable .waiting d.settings.retry.changesLifetimeSeconds) (e : Event σ) :
    (e.noting d hand (note d) w c).Waits := by
  cases e with
  | run count =>
      refine (Event.after_run_noting (h := hand) (f := note d) (P := fun _ c => c.Waits)
        (fun w => Cache.isConnected_of_isUsable hcache _) (fun w c _ ms _ _ hwaits _ => ?_)
        (fun w c m _ locked _ hwaits _ _ hlocked r after hrun _ hoff => ?_) hw h count).2
      · unfold hand
        split
        · split <;> exact hwaits
        · exact hwaits
      · unfold note
        split
        · rw [hrun, hlocked]
          refine List.forall_mem_cons.mpr ⟨fun hlocked => ?_, hwaits⟩
          obtain ⟨status, hstatus, rfl⟩ := hoff hlocked
          exact hstatus
        · exact hwaits
  | _ => exact h

/-- Whatever has happened, during rebuilds the job has only been put off. -/
theorem Waits.later (hdefer : d.isDeferring = true)
    (hcache : d.cache.IsUsable .waiting d.settings.retry.changesLifetimeSeconds) {events : List (Event σ)}
    (hw : w.IsGoing d) (hfair : w.IsFair d events) (h : c.Waits) : (w.course d c events).Waits := by
  induction events generalizing w c with
  | nil => exact h
  | cons e rest ih => exact ih (hw.after hdefer hcache hfair.1) hfair.2 (h.after hw hcache e)

/-! ## While the search engine is out of reach -/

/-- The answers to a job that is put back so often and then given up, the last one first. -/
def fate (count : ℕ) : List (Except Failure (Option JobStatus)) :=
  .ok (some .givenUp) :: List.replicate count (.ok (some .requeued))

/-- By induction on the runs that have found the search engine out of reach: all of them have put the job
back, and there is room for them; or the last one has given it up, and there was no more room. -/
theorem Follows.tries {later earlier : List Round} (h : Follows d job (later ++ earlier))
    (hmissed : ∀ r ∈ later, r.isMissed = true) :
    let room := (d.settings.retry.retries - (job.after earlier).retries).toNat
    (later.map (·.answer) = List.replicate later.length (.ok (some .requeued)) ∧ later.length ≤ room ∧
        (∀ r ∈ later.head?, r.next.isSome) ∧
        (job.after (later ++ earlier)).retries = (job.after earlier).retries + later.length) ∨
      later.map (·.answer) = fate room ∧ ∃ r ∈ later.head?, r.next = none := by
  intro room
  induction later with
  | nil => exact .inl ⟨rfl, Nat.zero_le _, by simp, (Int.add_zero _).symm⟩
  | cons r rest ih =>
      obtain ⟨hr, hrest⟩ := List.forall_mem_cons.mp hmissed
      obtain ⟨hunlocked, hoff⟩ := Bool.and_eq_true_iff.mp hr
      have hfollows : r.Follows d job (rest ++ earlier) := h.2
      rcases ih h.1 hrest with ⟨hanswers, hroom, -, hcount⟩ | ⟨-, last, hlast, hover⟩
      · have hspent : (Deployment.resumed r.isLocked (job.after (rest ++ earlier))).retries =
            (job.after earlier).retries + rest.length := by
          rw [Bool.not_eq_true'] at hunlocked
          rw [hunlocked]
          exact hcount
        rcases hfollows.cases_of_isPutOff hoff hspent with
          ⟨hanswer, hless, hnext, hagain⟩ | ⟨hanswer, hfull, hnext⟩
        · refine .inl ⟨?_, ?_, fun s hs => ?_, ?_⟩
          · rw [List.map_cons, hanswers, hanswer, List.length_cons, List.replicate_succ]
          · rw [List.length_cons]
            omega
          · cases hs
            exact hnext
          · rw [List.cons_append, hagain, List.length_cons]
            omega
        · have hlength : rest.length = room := by omega
          refine .inr ⟨?_, r, rfl, hnext⟩
          rw [List.map_cons, hanswers, hanswer, hlength]
          rfl
      · have hsome := hfollows.previous last (by
          obtain ⟨more, rfl⟩ := List.head?_eq_some_iff.mp hlast
          rfl)
        rw [hover] at hsome
        cases hsome

/-- While the search engine is out of reach the job is put back as often as there is room. Then it is given
up, and it is over. -/
theorem Follows.suffix_fate {later earlier : List Round} (hrounds : c.rounds = later ++ earlier)
    (h : Follows d job c.rounds) (hstart : (current { c with rounds := earlier }).isSome)
    (hmissed : ∀ r ∈ later, r.isMissed = true) {room : ℕ}
    (hroom : (d.settings.retry.retries - (job.after earlier).retries).toNat = room) :
    later.map (·.answer) <:+ fate room ∧ (c.current = none ↔ later.map (·.answer) = fate room) := by
  rw [hrounds] at h
  have hlast : ∀ r ∈ later.head?, c.current = r.next := by
    intro r hr
    obtain ⟨rest, rfl⟩ := List.head?_eq_some_iff.mp hr
    unfold current
    rw [hrounds]
    rfl
  rcases h.tries hmissed with ⟨hanswers, hfew, hnext, -⟩ | ⟨hanswers, r, hr, hnext⟩
  · rw [hroom] at hfew
    have hfate : fate room = (.ok (some .givenUp) :: List.replicate (room - later.length)
        (.ok (some .requeued))) ++ List.replicate later.length (.ok (some .requeued)) := by
      rw [List.cons_append, List.replicate_append_replicate, Nat.sub_add_cancel hfew]
      rfl
    refine ⟨⟨_, (hanswers ▸ hfate).symm⟩, fun hnone => ?_, fun hfull => ?_⟩
    · cases later with
      | nil =>
          have hnothing : current { c with rounds := earlier } = c.current := by
            unfold current
            rw [hrounds]
            rfl
          simp [hnothing, hnone] at hstart
      | cons r rest =>
          have hsome := hnext r rfl
          simp [← hlast r rfl, hnone] at hsome
    · have hlength := congrArg List.length hfull
      simp only [List.length_map, fate, List.length_cons, List.length_replicate] at hlength
      omega
  · rw [hroom] at hanswers
    rw [hanswers, hlast r hr]
    exact ⟨List.suffix_rfl, fun _ => rfl, fun _ => hnext⟩

end Course

namespace Deployment

open Course

/-- A job is put back as often as is allowed and then given up, if it finds the search engine out of reach
every time. If it has been run during a rebuild and then finds the search engine out of reach every time, it
is put back once less, however often it had been put back before. -/
theorem tries_course (hw : w.IsGoing d) (hdefer : d.isDeferring = true)
    (hcache : d.cache.IsUsable .waiting d.settings.retry.changesLifetimeSeconds) (hjob : d.CanStore job)
    {m : Message} {off : World σ} (hput : (d.enqueue job).outcome w = (.ok m, off))
    {events : List (Event σ)} (hfair : off.IsFair d events) : ∃ l, off.load? d w.nextName = some l ∧
      let c := off.course d { first := (w.nextName, l) } events
      ((∀ r ∈ c.rounds, r.isMissed = true) →
        c.rounds.map (·.answer) <:+ fate (d.settings.retry.retries - job.retries).toNat ∧
          (c.current = none ↔
            c.rounds.map (·.answer) = fate (d.settings.retry.retries - job.retries).toNat)) ∧
      ∀ later r earlier, c.rounds = later ++ r :: earlier → r.isLocked = true →
        (∀ s ∈ later, s.isMissed = true) → 0 < d.settings.retry.retries →
        r.answer = .ok (some .requeued) ∧
          later.map (·.answer) <:+ fate (d.settings.retry.retries - 1).toNat ∧
          (c.current = none ↔ later.map (·.answer) = fate (d.settings.retry.retries - 1).toNat) := by
  obtain ⟨_, off', hput', hadds, -⟩ := outcome_enqueue_adds hw.steady job none
  obtain rfl : off' = off := (Prod.mk.inj (hput'.symm.trans hput)).2
  have htime : d.queue.storage ≠ .memory → _ := fun hserver => hw.readsTime hserver
  obtain ⟨hsteady, hload, hwaits⟩ := hadds.load? hw.steady hjob fun hserver =>
    ⟨htime hserver _ (by simp), htime hserver _ (by simp [World.jobMessage, Queue.nextMessage])⟩
  have hheld : off'.load? d w.nextName = _ := (hload w.nextName).trans (if_pos rfl)
  have hnow : off'.host.network.now = w.host.network.now :=
    congrArg (fun bearing : Queue.Contents × Bool × Float × Nat => bearing.2.2.1) hadds
  have hgoing : off'.IsGoing d := ⟨hsteady, hnow ▸ hw.begun, hnow ▸ hw.readsTime⟩
  refine ⟨_, hheld, ?_⟩
  intro c
  have hfits : c.Fits d job (off'.later d events) :=
    (fits_first hsteady rfl hheld ((hwaits w.nextName).trans (if_pos rfl))).later hdefer hcache hgoing hfair
  have hwait : c.Waits := Waits.later hdefer hcache hgoing hfair (List.forall_mem_nil _)
  refine ⟨fun hmissed => ?_, fun later r earlier hrounds hlocked hmissed hroom => ?_⟩
  · exact hfits.follows.suffix_fate (List.append_nil _).symm rfl hmissed rfl
  · have hlast := (hrounds ▸ hfits.follows).split.2
    have hoff := hwait r (hrounds ▸ List.mem_append_right _ List.mem_cons_self) hlocked
    have hunspent : (resumed r.isLocked (job.after earlier)).retries = 0 := by
      rw [hlocked]
      rfl
    rcases hlast.cases_of_isPutOff hoff hunspent with ⟨hanswer, -, hnext, honce⟩ | ⟨-, hfull, -⟩
    · refine ⟨hanswer, hfits.follows.suffix_fate hrounds hnext hmissed ?_⟩
      rw [honce]
      rfl
    · omega

/-! ### A job that is put off once for a rebuild -/

private def rebuildDeployment : Deployment Cluster where
  client := Cluster.client
  settings := { retry := { retries := 2 } }
  cache := {}
  queue := {}

private def rebuildWorld : World Cluster where
  engine := {}
  catalog := { next := 3 }

private def spentRemoval : Job := { delete := some [7], retries := 2 }

/-- A rebuild during which the job is run, and three runs while the search engine is away. -/
private def awayRuns : List (Event Cluster) :=
  [.lock (.str "v2"), .run 1, .unlock, .turn fun c => { c with isAvailable := false },
    .wait 600, .run 1, .wait 600, .run 1, .wait 600, .run 1]

private def putOff : World Cluster := ((rebuildDeployment.enqueue spentRemoval).outcome rebuildWorld).2

private def removalLoad : Load := ⟨spentRemoval.toMessage, 1000, 1000⟩

private theorem load?_putOff :
    putOff.load? rebuildDeployment rebuildWorld.nextName = some removalLoad := by decide +kernel

private theorem rounds_awayRuns :
    (putOff.course rebuildDeployment { first := (rebuildWorld.nextName, removalLoad) } awayRuns).rounds.map
      (fun r => (r.isLocked, r.isMissed, r.next.isSome)) =
    [(false, true, false), (false, true, true), (true, false, true)] := by decide +kernel

/-- Two times are allowed, and the job is put back once after the rebuild. -/
theorem tries_course_removal : ∃ m, rebuildWorld.IsGoing rebuildDeployment ∧
    rebuildDeployment.CanStore spentRemoval ∧
    (rebuildDeployment.enqueue spentRemoval).outcome rebuildWorld = (.ok m, putOff) ∧
    putOff.IsFair rebuildDeployment awayRuns ∧
    putOff.load? rebuildDeployment rebuildWorld.nextName = some removalLoad ∧
    let c := putOff.course rebuildDeployment { first := (rebuildWorld.nextName, removalLoad) } awayRuns
    ∃ later r, c.rounds = later ++ [r] ∧ r.isLocked = true ∧ (∀ s ∈ later, s.isMissed = true) ∧
      rebuildDeployment.settings.retry.retries = 2 ∧ later.map (·.answer) = fate 1 := by
  have hgoing := (World.isGoing_of_empty (d := rebuildDeployment) (w := rebuildWorld) rfl rfl
    (by decide +kernel)).1
  have hcache : rebuildDeployment.cache.IsUsable .waiting
      rebuildDeployment.settings.retry.changesLifetimeSeconds := fun _ _ hserver => by cases hserver
  have hjob : rebuildDeployment.CanStore spentRemoval := fun hserver => absurd rfl hserver
  have hfair : putOff.IsFair rebuildDeployment awayRuns := by
    have hwait : ∀ w : World Cluster, w.host.network.now ≤ w.host.network.now + 600 →
        (Event.wait 600 : Event Cluster).IsFair rebuildDeployment w := fun w hle =>
      ⟨hle, fun hserver => absurd rfl hserver⟩
    refine ⟨trivial, trivial, trivial, trivial, hwait _ ?_, trivial, hwait _ ?_, trivial, hwait _ ?_,
      trivial, trivial⟩ <;> decide +kernel
  have hput : (rebuildDeployment.enqueue spentRemoval).outcome rebuildWorld = (.ok _, putOff) := rfl
  obtain ⟨l, hl, -, htries⟩ := tries_course hgoing rfl hcache hjob hput hfair
  cases load?_putOff.symm.trans hl
  refine ⟨_, hgoing, hjob, rfl, hfair, load?_putOff, ?_⟩
  intro c
  obtain ⟨last, _, hrounds, hlast, hrest⟩ := List.map_eq_cons_iff.mp rounds_awayRuns
  obtain ⟨before, _, rfl, hbefore, hrest⟩ := List.map_eq_cons_iff.mp hrest
  obtain ⟨r, _, rfl, hr, hrest⟩ := List.map_eq_cons_iff.mp hrest
  cases List.map_eq_nil_iff.mp hrest
  simp only [Prod.mk.injEq] at hlast hbefore hr
  have hmissed : ∀ s ∈ [last, before], s.isMissed = true := by
    simp [hlast, hbefore]
  have hover : c.current = none := by
    unfold current
    rw [hrounds]
    exact Option.not_isSome_iff_eq_none.mp (by simp [hlast])
  obtain ⟨-, -, hcount⟩ := htries [last, before] r [] hrounds hr.1 hmissed (by decide)
  exact ⟨[last, before], r, hrounds, hr.1, hmissed, rfl, hcount.mp hover⟩

end Deployment

end FactIndex
