import FactIndex.Proofs.Update.Legible

/-!
# Running the jobs that are due

The runner takes messages from the queue and deals with one after the other. A message that carries no
job is dropped, a job that is run ends with a status, and a refused write has failed; then the message
is acknowledged. Two kinds of messages stop the runner: one that says that it carries a job whose
parameters cannot be read, and one whose job names an entity by a hash that cannot be read, or a change
that cannot be read.

## Main definitions

* `Message.job?`: the job that a message carries.
* `Message.Chokes`: the message stops the runner.
* `Deployment.meets_runMessages`: what becomes of the messages that have been pulled.
* `Deployment.runJobs_settles_iff`: the runner deals with all messages that it has pulled, whatever the
  search engine does, if and only if none of them stops it.
-/

namespace FactIndex

open FactIndex.Effect

variable {σ α : Type} {d : Deployment σ} {w w' : World σ}

/-! ## One message -/

/-- The job that a message carries, if its parameters can be read. -/
def Message.job? (m : Message) : Option Job := (Job.ofMessage m.value).toOption

theorem Message.job?_of_error {m : Message} {e : Failure} (h : Job.ofMessage m.value = .error e) :
    m.job? = none := by
  unfold Message.job?
  rw [h]
  rfl

theorem Message.job?_of_ok {m : Message} {job : Job} (h : Job.ofMessage m.value = .ok job) :
    m.job? = some job := by
  unfold Message.job?
  rw [h]
  rfl

theorem Message.ofMessage_of_job? {m : Message} {job : Job} (h : m.job? = some job) :
    Job.ofMessage m.value = .ok job := by
  unfold Message.job? at h
  cases hread : Job.ofMessage m.value with
  | error e =>
      rw [hread] at h
      cases h
  | ok other =>
      rw [hread] at h
      cases h
      rfl

/-- Parameters that cannot be read are not taken for a message of another kind. -/
theorem Message.ofMessage_of_garbled {m : Message} (tag : m.value.get? "type" = some (.str Job.messageType))
    (unread : m.job? = none) : ∃ e, Job.ofMessage m.value = .error e ∧
      ∀ text issues, e ≠ .badRequest text issues := by
  unfold Message.job? Job.ofMessage at unread
  unfold Job.ofMessage
  rw [if_pos tag] at unread ⊢
  cases hparams : m.value.get? "params" with
  | none => exact ⟨_, rfl, nofun⟩
  | some params =>
      simp only [hparams] at unread ⊢
      cases hread : Job.read params with
      | ok job =>
          rw [hread] at unread
          cases unread
      | bad issues => exact ⟨_, rfl, nofun⟩

/-- A message that is no bad request says that it carries a job. -/
theorem Job.tag_of_ofMessage {value : Json} {e : Failure}
    (hother : ∀ text issues, e ≠ .badRequest text issues) (h : ofMessage value = .error e) :
    value.get? "type" = some (.str messageType) := by
  unfold ofMessage at h
  split at h
  · assumption
  · cases h
    exact absurd rfl (hother _ _)

/-- A message that stops the runner: it says that it carries a job, but the parameters cannot be read; or
the job is to be done now, and cannot be read. -/
inductive Message.Chokes (d : Deployment σ) (w : World σ) (m : Message) : Prop where
  | garbled (tag : m.value.get? "type" = some (.str Job.messageType)) (unread : m.job? = none)
  | stuck (job : Job) (carried : m.job? = some job) (free : w.IsFree d) (illegible : ¬ job.IsLegible d w)

theorem Message.Chokes.of_sight {m : Message} (h : m.Chokes d w) (heq : w'.sight d = w.sight d) :
    m.Chokes d w' := by
  cases h with
  | garbled tag unread => exact .garbled tag unread
  | stuck job carried free illegible =>
      exact .stuck job carried (free.of_sight heq) fun h => illegible (h.of_sight heq.symm)

namespace Deployment

/-- A message in flight is acknowledged, and nothing else is done. -/
theorem outcome_acknowledge (hqueue : d.queue.isConnected (w.queue, w.host) = true) {m : Message}
    (hid : m.id ∈ w.inFlight d) : ∃ after, (d.acknowledge m).outcome w = (.ok (), after) ∧
      after.outlook d = ((w.inFlight d).filter (· ≠ m.id), true, w.sight d) := by
  obtain ⟨site, hack, hflight, hlink⟩ := Queue.outcome_ack hqueue hid
  have houtcome : (d.acknowledge m).outcome w = _ := outcome_onQueue hack
  have hsight := leaves_sight_onQueue (d := d) (d.queue.leaves_ack (.str m.id)) w
  unfold acknowledge at houtcome
  rw [houtcome] at hsight
  refine ⟨_, houtcome, ?_⟩
  unfold World.outlook
  rw [hsight]
  exact congrArg₂ Prod.mk hflight (congrArg (Prod.mk · _) hlink)

/-- What becomes of a message that has been pulled. -/
theorem meets_runMessage (hclient : d.client.AnswersObjects) (hlink : w.IsLinked d)
    (hqueue : d.queue.isConnected (w.queue, w.host) = true) {m : Message} (hid : m.id ∈ w.inFlight d) :
    (d.runMessage m).Meets w fun r after => d.queue.isConnected (after.queue, after.host) = true ∧
      after.sight d = w.sight d ∧
      match r with
      | .ok status => status.isSome = m.job?.isSome ∧
          after.inFlight d = (w.inFlight d).filter (· ≠ m.id)
      | .error _ => m.Chokes d w ∧ after.inFlight d =
          (w.inFlight d).filter fun id => id ≠ m.id ∨ m.job? = none := by
  unfold runMessage
  split
  · rename_i text issues hjob
    obtain ⟨after, hack, houtlook⟩ := outcome_acknowledge hqueue hid
    have hnone : m.job? = none := Message.job?_of_error hjob
    simp only [World.outlook, Prod.mk.injEq] at houtlook
    refine Meets.bind_of_ok hack ⟨houtlook.2.1, houtlook.2.2, ?_, houtlook.1⟩
    rw [hnone]
    rfl
  · rename_i e hother hjob
    have hnone : m.job? = none := Message.job?_of_error hjob
    refine ⟨hqueue, rfl, .garbled (Job.tag_of_ofMessage hother hjob) hnone, ?_⟩
    simp [hnone]
  · rename_i job hjob
    have hsome : m.job? = some job := Message.job?_of_ok hjob
    refine (meets_runJob_outlook hclient hlink hqueue job).bind ?_
      fun e after ⟨_, hrun, _⟩ => nomatch hrun
    rintro _ ran ⟨run, ⟨⟩, hran, hfails⟩
    simp only [World.outlook, Prod.mk.injEq] at hran
    obtain ⟨hflight, hlinked, hsight⟩ := hran
    obtain ⟨after, hack, houtlook⟩ := outcome_acknowledge (hlinked.trans hqueue) (hflight ▸ hid)
    simp only [World.outlook, Prod.mk.injEq] at houtlook
    rw [hflight, hsight] at houtlook
    refine Meets.bind_of_ok hack ?_
    split
    · exact ⟨houtlook.2.1, houtlook.2.2, by rw [hsome]; rfl, houtlook.1⟩
    · exact ⟨houtlook.2.1, houtlook.2.2, by rw [hsome]; rfl, houtlook.1⟩
    · rename_i e hother hfailed
      refine ⟨houtlook.2.1, houtlook.2.2, ?_, ?_⟩
      · rcases hfails e hfailed with hrefusal | ⟨hfree, hillegible⟩
        · unfold Failure.isRefusal at hrefusal
          split at hrefusal
          · exact absurd rfl (hother _ _ _)
          · cases hrefusal
        · exact .stuck job hsome hfree hillegible
      · refine houtlook.1.trans ?_
        simp [hsome]

/-! ## All messages -/

/-- The runner deals with one message after the other, until one of them stops it. -/
theorem meets_runMessages (hclient : d.client.AnswersObjects) {ms : List Message}
    (hids : (ms.map (·.id)).Nodup) (hlink : w.IsLinked d)
    (hqueue : d.queue.isConnected (w.queue, w.host) = true) (hflight : ∀ m ∈ ms, m.id ∈ w.inFlight d) :
    (d.runMessages ms).Meets w fun r after =>
      match r with
      | .ok statuses => statuses.length = (ms.filter fun m => m.job?.isSome).length ∧
          ∀ id, id ∈ after.inFlight d ↔ id ∈ w.inFlight d ∧ id ∉ ms.map (·.id)
      | .error e => ∃ before m rest, ms = before ++ m :: rest ∧ m.Chokes d w ∧
          (d.runMessages (before ++ [m])).outcome w = (.error e, after) ∧
          ∀ id, id ∈ after.inFlight d ↔ id ∈ w.inFlight d ∧ id ∉ before.map (·.id) ∧
            (id ≠ m.id ∨ m.job? = none) := by
  induction ms generalizing w with
  | nil => exact ⟨rfl, fun id => ⟨fun h => ⟨h, List.not_mem_nil⟩, And.left⟩⟩
  | cons m rest ih =>
      obtain ⟨hnew, hrest⟩ := List.nodup_cons.mp hids
      have hfirst := meets_runMessage hclient hlink hqueue (hflight m List.mem_cons_self)
      rcases hr : (d.runMessage m).outcome w with ⟨r, next⟩
      obtain ⟨hlinked, hsight, hnext⟩ := hfirst.of_outcome hr
      cases r with
      | error e =>
          obtain ⟨hchokes, hleft⟩ := hnext
          refine Meets.bind_of_error hr ⟨[], m, rest, rfl, hchokes, outcome_bind_of_error hr _, ?_⟩
          intro id
          rw [hleft]
          simp
      | ok status =>
          obtain ⟨hstatus, hleft⟩ := hnext
          have hkept : ∀ id, id ∈ next.inFlight d ↔ id ∈ w.inFlight d ∧ id ≠ m.id := by
            intro id
            rw [hleft, List.mem_filter, decide_eq_true_iff]
          have hstill : ∀ other ∈ rest, other.id ∈ next.inFlight d := fun other hother =>
            (hkept other.id).mpr ⟨hflight other (List.mem_cons_of_mem _ hother),
              ne_of_mem_of_not_mem (List.mem_map_of_mem hother) hnew⟩
          have hothers := ih hrest (hlink.of_sight hsight) hlinked hstill
          rcases hall : (d.runMessages rest).outcome next with ⟨r, after⟩
          have hafter := hothers.of_outcome hall
          cases r with
          | error e =>
              obtain ⟨before, choking, later, rfl, hchokes, houtcome, hin⟩ := hafter
              refine Meets.bind_of_ok hr (Meets.bind_of_error hall
                ⟨m :: before, choking, later, rfl, hchokes.of_sight hsight.symm, ?_, fun id => ?_⟩)
              · exact (outcome_bind_of_ok hr _).trans (outcome_bind_of_error houtcome _)
              · rw [hin, hkept, List.map_cons, List.mem_cons, not_or]
                tauto
          | ok statuses =>
              obtain ⟨hlength, hin⟩ := hafter
              refine Meets.bind_of_ok hr (Meets.bind_of_ok hall ⟨?_, fun id => ?_⟩)
              · rw [List.length_append, hlength, List.filter_cons, ← hstatus]
                cases status with
                | none => simp
                | some s => simp [Nat.add_comm]
              · show id ∈ after.inFlight d ↔ _
                rw [hin, hkept, List.map_cons, List.mem_cons, not_or]
                tauto

/-- A message that chokes stops the runner where no engine stands in the way. -/
theorem runMessage_of_chokes (hclient : d.client.Obliges) (hlink : w.IsLinked d) {m : Message}
    (h : m.Chokes d w) : ∃ e, ((d.runMessage m).outcome w).1 = .error e := by
  unfold runMessage
  cases h with
  | garbled tag unread =>
      obtain ⟨e, he, hother⟩ := m.ofMessage_of_garbled tag unread
      rw [he]
      cases e with
      | badRequest text issues => exact absurd rfl (hother text issues)
      | _ => exact ⟨_, rfl⟩
  | stuck job carried free illegible =>
      obtain ⟨e, hrun, hengine⟩ := runJob_of_not_isLegible hclient free hlink illegible
      rw [m.ofMessage_of_job? carried]
      dsimp only
      rw [outcome_bind_of_answer hrun, outcome_bind]
      rcases (d.acknowledge m).outcome ((d.runJob job).outcome w).2 with ⟨_ | _, after⟩
      · exact ⟨_, rfl⟩
      · cases e with
        | client error =>
            cases error with
            | refused status error reason => cases hengine
            | _ => exact ⟨_, rfl⟩
        | _ => exact ⟨_, rfl⟩

/-- Where no engine stands in the way, a message that chokes keeps the runner from coming to its end. -/
theorem runMessages_of_chokes (hengine : d.client.Obliges) (hclient : d.client.AnswersObjects)
    {ms : List Message} (hids : (ms.map (·.id)).Nodup) (hlink : w.IsLinked d)
    (hqueue : d.queue.isConnected (w.queue, w.host) = true) (hflight : ∀ m ∈ ms, m.id ∈ w.inFlight d)
    {m : Message} (hm : m ∈ ms) (h : m.Chokes d w) :
    ∃ e, ((d.runMessages ms).outcome w).1 = .error e := by
  induction ms generalizing w with
  | nil => cases hm
  | cons first rest ih =>
      obtain ⟨hnew, hrest⟩ := List.nodup_cons.mp hids
      have hfirst := meets_runMessage hclient hlink hqueue (hflight first List.mem_cons_self)
      rcases hr : (d.runMessage first).outcome w with ⟨r, next⟩
      obtain ⟨hlinked, hsight, hnext⟩ := hfirst.of_outcome hr
      cases r with
      | error e => exact ⟨e, fst_bind_of_error (congrArg Prod.fst hr) _⟩
      | ok status =>
          rcases List.mem_cons.mp hm with rfl | hm
          · obtain ⟨e, he⟩ := runMessage_of_chokes hengine hlink h
            rw [hr] at he
            cases he
          · obtain ⟨e, he⟩ := ih hrest (hlink.of_sight hsight) hlinked (fun other hother => by
              rw [hnext.2]
              exact List.mem_filter.mpr ⟨hflight other (List.mem_cons_of_mem _ hother),
                decide_eq_true (ne_of_mem_of_not_mem (List.mem_map_of_mem hother) hnew)⟩) hm
              (h.of_sight hsight)
            refine ⟨e, ?_⟩
            unfold runMessages
            rw [outcome_bind_of_ok hr]
            exact fst_bind_of_error he _

end Deployment

/-! ## A run -/

/-- The deployment with another search engine. -/
def Deployment.on {τ : Type} (d : Deployment σ) (client : SearchClient τ) : Deployment τ where
  settings := d.settings
  client := client
  cache := d.cache
  queue := d.queue
  isDeferring := d.isDeferring
  origin := d.origin
  fallback := d.fallback

/-- The world with another search engine. -/
def World.on {τ : Type} (w : World σ) (engine : τ) : World τ where
  engine := engine
  catalog := w.catalog
  cache := w.cache
  queue := w.queue
  host := w.host
  isOpen := w.isOpen

/-- Whether a message chokes does not depend on the search engine. -/
theorem Message.chokes_on {τ : Type} {client : SearchClient τ} {engine : τ} {m : Message} :
    m.Chokes (d.on client) (w.on engine) ↔ m.Chokes d w := by
  constructor
  · rintro (⟨tag, unread⟩ | ⟨job, carried, free, illegible⟩)
    · exact .garbled tag unread
    · exact .stuck job carried free fun h => illegible ⟨h.create, h.replicate⟩
  · rintro (⟨tag, unread⟩ | ⟨job, carried, free, illegible⟩)
    · exact .garbled tag unread
    · exact .stuck job carried free fun h => illegible ⟨h.create, h.replicate⟩

/-- An engine that takes note of every request. -/
def SearchClient.obliging : SearchClient Unit where
  send _ s := (.ok (.single "acknowledged" (.bool true)), s)

theorem SearchClient.obliges_obliging : obliging.Obliges := fun _ s => ⟨_, [], s, rfl⟩

theorem SearchClient.answersObjects_obliging : obliging.AnswersObjects := by
  rintro operations s answer t ⟨⟩
  exact ⟨_, rfl⟩

namespace Deployment

/-- A run comes to its end. Each message that carries a job has a status, and of the messages that were in
flight after the pull those that were pulled are so no more. -/
def Settles (d : Deployment σ) (w : World σ) (count : Int) (pulled : List Message) (held : List String) :
    Prop :=
  ∃ statuses after, (d.runJobs (.int count)).outcome w = (.ok statuses, after) ∧
    statuses.length = (pulled.filter fun m => m.job?.isSome).length ∧
    ∀ id, id ∈ after.inFlight d ↔ id ∈ held ∧ id ∉ pulled.map (·.id)

/-- A run is stopped by a message. What was pulled before it has been dealt with, as if nothing else had
been pulled; what was pulled after it stays in flight, and the message itself does if it carries no job. -/
def StopsAt (d : Deployment σ) (w : World σ) (count : Int) (pulled : World σ) (before : List Message)
    (m : Message) (held : List String) : Prop :=
  ∃ e after, (d.runJobs (.int count)).outcome w = (.error e, after) ∧
    (d.runMessages (before ++ [m])).outcome pulled = (.error e, after) ∧
    ∀ id, id ∈ after.inFlight d ↔ id ∈ held ∧ id ∉ before.map (·.id) ∧ (id ≠ m.id ∨ m.job? = none)

theorem outcome_runJobs {count : Int} {pulled : List Message} {site : Queue.Site}
    (hpull : (d.queue.pull { count := some count }).outcome (w.queue, w.host) = (.ok pulled, site)) :
    (d.runJobs (.int count)).outcome w =
      (d.runMessages pulled).outcome { w with queue := site.1, host := site.2 } := by
  unfold runJobs
  have hread : (PullOptions.read (.single "max_count" (.int count))).toExcept =
    .ok { count := some count } := rfl
  rw [hread]
  have hofExcept : (Effect.ofExcept (.ok { count := some count }) : Action σ PullOptions).outcome w =
    (.ok { count := some count }, w) := rfl
  rw [outcome_bind_of_ok hofExcept, outcome_bind_of_ok (outcome_onQueue hpull)]

/-- After a pull jobs see what they saw before. -/
theorem sight_of_pull {options : PullOptions} {pulled : List Message} {site : Queue.Site}
    (hpull : (d.queue.pull options).outcome (w.queue, w.host) = (.ok pulled, site)) :
    World.sight d { w with queue := site.1, host := site.2 } = w.sight d := by
  have hsight := leaves_sight_onQueue (d := d) (d.queue.leaves_pull options) w
  rwa [outcome_onQueue hpull] at hsight

theorem settles_or_stopsAt (hclient : d.client.AnswersObjects) {count : Int} {pulled : List Message}
    {site : Queue.Site}
    (hpull : (d.queue.pull { count := some count }).outcome (w.queue, w.host) = (.ok pulled, site))
    (hids : (pulled.map (·.id)).Nodup) (hflight : ∀ m ∈ pulled, m.id ∈ d.queue.inFlight site)
    (hlinked : d.queue.isConnected site = true) (hlink : w.IsLinked d) :
    d.Settles w count pulled (d.queue.inFlight site) ∨
      ∃ before m rest, pulled = before ++ m :: rest ∧ m.Chokes d w ∧
        d.StopsAt w count { w with queue := site.1, host := site.2 } before m
          (d.queue.inFlight site) := by
  have hsight := sight_of_pull hpull
  have hmessages := meets_runMessages (w := { w with queue := site.1, host := site.2 }) hclient hids
    (hlink.of_sight hsight) hlinked hflight
  rcases hrun : (d.runMessages pulled).outcome { w with queue := site.1, host := site.2 } with
    ⟨e | statuses, after⟩
  · obtain ⟨before, m, rest, hsplit, hchokes, hprefix, hleft⟩ := hmessages.of_outcome hrun
    exact .inr ⟨before, m, rest, hsplit, hchokes.of_sight hsight.symm, e, after,
      (outcome_runJobs hpull).trans hrun, hprefix, hleft⟩
  · obtain ⟨hlength, hleft⟩ := hmessages.of_outcome hrun
    exact .inl ⟨statuses, after, (outcome_runJobs hpull).trans hrun, hlength, hleft⟩

/-- Where no engine stands in the way, a run that pulls a message that chokes does not come to its end. -/
theorem runJobs_of_chokes (hengine : d.client.Obliges) (hclient : d.client.AnswersObjects) {count : Int}
    {pulled : List Message} {site : Queue.Site}
    (hpull : (d.queue.pull { count := some count }).outcome (w.queue, w.host) = (.ok pulled, site))
    (hids : (pulled.map (·.id)).Nodup) (hflight : ∀ m ∈ pulled, m.id ∈ d.queue.inFlight site)
    (hlinked : d.queue.isConnected site = true) (hlink : w.IsLinked d) {m : Message} (hm : m ∈ pulled)
    (h : m.Chokes d w) : ∃ e, ((d.runJobs (.int count)).outcome w).1 = .error e := by
  have hsight := sight_of_pull hpull
  rw [outcome_runJobs hpull]
  exact runMessages_of_chokes hengine hclient hids (hlink.of_sight hsight) hlinked hflight hm
    (h.of_sight hsight)

/-- A run settles whatever the search engine does, if and only if none of the messages that it pulls chokes.
In any case it settles, or it is stopped by a message that chokes. -/
theorem runJobs_settles_iff (hsound : d.queue.IsSound (w.queue, w.host))
    (hqueue : d.queue.isConnected (w.queue, w.host) = true) (hlink : w.IsLinked d) (count : Int) :
    ∃ pulled site,
      (d.queue.pull { count := some count }).outcome (w.queue, w.host) = (.ok pulled, site) ∧
      (∀ m ∈ pulled, m.id ∈ d.queue.inFlight site) ∧
      ((∀ {τ : Type} (client : SearchClient τ) (engine : τ), client.AnswersObjects →
          (d.on client).Settles (w.on engine) count pulled (d.queue.inFlight site)) ↔
        ∀ m ∈ pulled, ¬ m.Chokes d w) ∧
      ∀ {τ : Type} (client : SearchClient τ) (engine : τ), client.AnswersObjects →
        (d.on client).Settles (w.on engine) count pulled (d.queue.inFlight site) ∨
        ∃ before m rest, pulled = before ++ m :: rest ∧ m.Chokes d w ∧
          (d.on client).StopsAt (w.on engine) count
            { w.on engine with queue := site.1, host := site.2 } before m (d.queue.inFlight site) := by
  obtain ⟨pulled, site, hpull, hids, hflight, hlinked⟩ :=
    Queue.outcome_pull hsound hqueue { count := some count }
  have hall : ∀ {τ : Type} (client : SearchClient τ) (engine : τ), client.AnswersObjects →
      (d.on client).Settles (w.on engine) count pulled (d.queue.inFlight site) ∨
      ∃ before m rest, pulled = before ++ m :: rest ∧ m.Chokes d w ∧
        (d.on client).StopsAt (w.on engine) count
          { w.on engine with queue := site.1, host := site.2 } before m (d.queue.inFlight site) :=
    fun {τ} client engine hclient => (settles_or_stopsAt (d := d.on client) (w := w.on engine) hclient
      hpull hids hflight hlinked hlink).imp_right fun ⟨before, m, rest, hsplit, hchokes, hstops⟩ =>
        ⟨before, m, rest, hsplit, Message.chokes_on.mp hchokes, hstops⟩
  refine ⟨pulled, site, hpull, hflight, ⟨fun hsettles m hm hchokes => ?_,
    fun hnone τ client engine hclient => ?_⟩, hall⟩
  · obtain ⟨statuses, after, hrun, -⟩ :=
      hsettles SearchClient.obliging () SearchClient.answersObjects_obliging
    obtain ⟨e, he⟩ := runJobs_of_chokes (d := d.on SearchClient.obliging) (w := w.on ())
      SearchClient.obliges_obliging SearchClient.answersObjects_obliging hpull hids hflight hlinked hlink
      hm (Message.chokes_on.mpr hchokes)
    rw [hrun] at he
    cases he
  · rcases hall client engine hclient with hsettles | ⟨before, m, rest, rfl, hchokes, -⟩
    · exact hsettles
    · exact absurd hchokes (hnone m (by simp))

/-! ## A message without parameters -/

/-- A message that says that it carries a job, and nothing else. -/
private def garbled : Message where
  id := "msg-1"
  value := .obj [("type", .str Job.messageType)]
  enqueued := 0
  available := 0

/-- A message that carries the deletion of a document. -/
private def deletionOfSeven : Message where
  id := "msg-2"
  value := Job.toMessage { delete := some [7] }
  enqueued := 1
  available := 1

private def plainDeployment : Deployment Unit where
  client := SearchClient.obliging
  cache := {}
  queue := {}

private def garbledWorld : World Unit where
  engine := ()
  catalog := { next := 1 }
  queue := { memory := [.put garbled, .put deletionOfSeven].foldl Queue.Memory.Step.after {} }

private theorem pull_garbledWorld : ∃ site,
    (plainDeployment.queue.pull { count := some 10 }).outcome (garbledWorld.queue, garbledWorld.host) =
      (.ok [garbled.delivered, deletionOfSeven.delivered], site) := by
  have hready : garbledWorld.queue.memory.ready.values.filter
      (fun r => r.available ≤ garbledWorld.host.network.now) = [garbled, deletionOfSeven] := by
    decide +kernel
  have hdue : garbledWorld.queue.memory.due garbledWorld.host.network.now =
      [garbled, deletionOfSeven] := by
    unfold Queue.Memory.due
    rw [hready]
    exact List.mergeSort_of_pairwise (by decide +kernel)
  obtain ⟨after, hsent⟩ : ∃ after, garbledWorld.queue.memory.pull garbledWorld.host.network.now
      plainDeployment.queue.hidden 10 =
        (.ok [garbled.delivered, deletionOfSeven.delivered], after) := by
    show ∃ after, garbledWorld.queue.memory.sendAll _
      (front (garbledWorld.queue.memory.due garbledWorld.host.network.now) 10) = _
    rw [hdue]
    exact ⟨_, rfl⟩
  refine ⟨({ garbledWorld.queue with memory := after }, garbledWorld.host), ?_⟩
  exact congrArg (fun sent : Except Failure (List Message) × Queue.Memory =>
    (sent.1, ({ garbledWorld.queue with memory := sent.2 }, garbledWorld.host))) hsent

/-- The message without parameters stops the run, and the deletion is not done. -/
theorem runJobs_settles_iff_garbled :
    plainDeployment.queue.IsSound (garbledWorld.queue, garbledWorld.host) ∧
    plainDeployment.queue.isConnected (garbledWorld.queue, garbledWorld.host) = true ∧
    garbledWorld.IsLinked plainDeployment ∧
    ∃ site, (plainDeployment.queue.pull { count := some 10 }).outcome
        (garbledWorld.queue, garbledWorld.host) =
          (.ok [garbled.delivered, deletionOfSeven.delivered], site) ∧
      ¬ ∀ {τ : Type} (client : SearchClient τ) (engine : τ), client.AnswersObjects →
        (plainDeployment.on client).Settles (garbledWorld.on engine) 10
          [garbled.delivered, deletionOfSeven.delivered] (plainDeployment.queue.inFlight site) := by
  have hsound : plainDeployment.queue.IsSound (garbledWorld.queue, garbledWorld.host) := by
    refine Queue.Memory.isSound_run fun message hmessage => ?_
    simp only [List.mem_cons, Queue.Memory.Step.put.injEq, List.not_mem_nil, or_false] at hmessage
    rcases hmessage with rfl | rfl <;> rfl
  obtain ⟨pulled, site, hpull, -, hiff, -⟩ :=
    runJobs_settles_iff (d := plainDeployment) (w := garbledWorld) hsound rfl rfl 10
  obtain ⟨site', hpull'⟩ := pull_garbledWorld
  cases hpull.symm.trans hpull'
  exact ⟨hsound, rfl, rfl, site, hpull, fun hall =>
    hiff.mp hall garbled.delivered List.mem_cons_self (.garbled rfl rfl)⟩

end Deployment

end FactIndex
