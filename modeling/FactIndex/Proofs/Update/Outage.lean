import FactIndex.Proofs.Update.Deferral
import Mathlib.Tactic.TFAE

/-!
# Outages

A change that is put off while the engine is out of reach is written when the engine is back. This comes
to the same as writing it at once, whatever of it had been written before the engine was lost. It does
so for the entities whose hash is read back, and for no others: the change of an entity with a number
sign in a text is not found again, and the job ends without having written anything.

## Main definitions

* `Outage`: a change is put off, and its job is run when the engine is back.
* `Outage.Recovers`, `Outage.AgreesWithDirect`: what should come of it.
* `Outage.recovers`, `Outage.loses`: what comes of it.
* `Outage.recovers_tfae`: the entities for which it comes to the same.
-/

namespace FactIndex

open FactIndex.Effect

variable {σ : Type}

/-! ## A cache with one change -/

/-- The cache is in memory and holds nothing but a change, which has not expired. -/
structure World.HoldsOnly (d : Deployment σ) (change : Change) (w : World σ) : Prop where
  inMemory : d.cache = {}
  holds : ∃ expiry, w.cache.memory = [(Change.key change.subject, ⟨change.toJson, expiry⟩)] ∧
    Cache.Entry.hasExpired w.host.network.now ⟨change.toJson, expiry⟩ = false

namespace World.HoldsOnly

variable {d : Deployment σ} {change : Change} {w : World σ}

theorem served (h : w.HoldsOnly d change) (full : String) :
    (w.surroundings d).2.served full =
      if Change.key change.subject = full then some change.toJson else none := by
  obtain ⟨expiry, hmemory, hfresh⟩ := h.holds
  show d.cache.served (w.cache, w.host) full = _
  rw [h.inMemory]
  exact @Cache.served_singleton (w.cache, w.host) _ _ hmemory hfresh full

/-- A cache with a change only has no lock. -/
theorem isLocked (h : w.HoldsOnly d change) :
    (d.isLocked IndexType.data).outcome w = (.ok false, w) := by
  obtain ⟨expiry, hmemory, -⟩ := h.holds
  have hfind : w.cache.memory.find w.host.network.now ("lock:" ++ d.indexName IndexType.data) =
      (none, w.cache.memory) := by
    unfold Cache.Memory.find
    rw [hmemory, Table.get?_cons, if_neg (d.key_ne_lock change.subject)]
    rfl
  have hhas : (({} : Cache).has .waiting (d.lockKey IndexType.data)).outcome (w.cache, w.host) =
      (.ok false, w.cache, w.host) := by
    unfold Deployment.lockKey
    generalize "lock:" ++ d.indexName IndexType.data = key at hfind ⊢
    show (Except.ok (w.cache.memory.find w.host.network.now key).1.isSome,
      ({ w.cache with memory := (w.cache.memory.find w.host.network.now key).2 }, w.host)) = _
    rw [hfind]
    rfl
  unfold Deployment.isLocked onCache
  rw [h.inMemory, outcome_onPart, hhas]

theorem isFree (h : w.HoldsOnly d change) : w.IsFree d := by
  intro full hfull
  rw [h.inMemory] at hfull
  cases hfull
  have hanswers : (w.surroundings d).2.answers = fun full =>
      ((w.surroundings d).2.served full).isSome := by
    unfold World.surroundings
    rw [h.inMemory]
    rfl
  rw [hanswers]
  dsimp only
  rw [h.served, if_neg (d.key_ne_lock change.subject)]
  rfl

/-- The change is served as it is kept. -/
theorem unexpired (h : w.HoldsOnly d change) (full : String)
    (hfull : d.cache.fullKey (.str (Change.key change.subject)) = .ok full) :
    d.cache.served (w.cache, w.host) full = d.cache.kept (w.cache, w.host) full := by
  obtain ⟨expiry, hmemory, -⟩ := h.holds
  rw [h.inMemory] at hfull
  cases hfull
  have hserved := h.served (Change.key change.subject)
  rw [if_pos rfl] at hserved
  exact hserved.trans (Cache.kept_of_served hserved).symm

end World.HoldsOnly

/-! ## Putting off and recovering -/

/-- A change is put off while the engine is out of reach, or is lost on the way, and the engine is back
later. Nothing has been written in between, and the change that was saved has not expired. -/
structure Outage (d : Deployment σ) (E : DataIndex d.client (d.indexName IndexType.data))
    (change : Change) (before off back : World σ) : Prop where
  distinct : change.properties.keys.Nodup
  /-- On the server the change is kept as a text. -/
  floats : d.cache.storage ≠ .memory → ∀ x ∈ change.floats, Json.ReadsFloat .stored x
  isDeferring : d.isDeferring = true
  isFree : before.IsFree d
  putOff : (d.safeReplicate change).outcome before = (.ok false, off)
  catalog : back.catalog = off.catalog
  documents : E.document? back.engine = E.document? off.engine
  isUp : E.IsUp back.engine
  isStillFree : back.IsFree d
  isLinked : back.IsLinked d
  /-- What was saved is still served. -/
  unexpired : ∀ full, d.cache.fullKey (.str (Change.key change.subject)) = .ok full →
    d.cache.served (back.cache, back.host) full = d.cache.kept (off.cache, off.host) full

namespace Outage

variable {d : Deployment σ} {E : DataIndex d.client (d.indexName IndexType.data)} {change : Change}
  {before off back : World σ}

/-- The job is in the queue, and when it has been run the documents are those that the change makes where
it is written at once. -/
def Recovers (d : Deployment σ) (E : DataIndex d.client (d.indexName IndexType.data))
    (change : Change) (before off back : World σ) : Prop :=
  d.queue.Carries (off.queue, off.host) (d.replication change).toMessage ∧
    ∀ s, E.IsUp s → E.document? s = E.document? before.engine → ∃ recovered report direct,
      (d.recover (d.replication change).toMessage).outcome back =
          (.ok ⟨d.replication change, .ok .succeeded⟩, recovered) ∧
        (d.replicate change).outcome { before with engine := s } = (.ok report, direct) ∧
        E.document? recovered.engine = E.document? direct.engine

/-- Whatever is answered, the documents are those that the change makes where it is written at once. -/
def AgreesWithDirect (d : Deployment σ) (E : DataIndex d.client (d.indexName IndexType.data))
    (change : Change) (before back : World σ) : Prop :=
  ∀ s, E.IsUp s → E.document? s = E.document? before.engine →
    E.document? ((d.recover (d.replication change).toMessage).outcome back).2.engine =
      E.document? ((d.replicate change).outcome { before with engine := s }).2.engine

/-- What is saved is read back. -/
theorem readBack_form (h : Outage d E change before off back) :
    d.cache.readBack (d.cache.form change.toJson) = .ok change.toJson :=
  Cache.readBack_form fun hserver => Change.isReadable_toJson h.distinct (h.floats hserver)

/-- By what is in the queue and in the cache: the writes of the change are done, and those that had been
done already make no difference. -/
theorem recovers (h : Outage d E change before off back) (hplain : change.subject.IsPlain) :
    Recovers d E change before off back := by
  obtain ⟨hlink, _, hcatalog, ⟨done, hdone, hwritten⟩, ⟨full, hfull, hkept⟩, hcarries⟩ :=
    Deployment.put_off E h.putOff
  refine ⟨hcarries h.isDeferring, fun s hs hsame => ?_⟩
  have hserved : (back.surroundings d).2.served full = some (d.cache.form change.toJson) :=
    (h.unexpired full hfull).trans hkept
  obtain ⟨recovered, hrun, hrecovered⟩ := Deployment.recover_replication (E := E) hplain
    h.isStillFree h.isLinked h.isUp hfull hserved h.readBack_form h.distinct
  have hdirect := Deployment.meets_replicate_of_isUp (w := { before with engine := s }) change
    (h.isFree.congr rfl) (hlink.congr rfl) hs
  have hall : Write.applyAll (E.document? back.engine)
      (E.accepted d.settings.writer back.catalog change) =
        Write.applyAll (E.document? before.engine)
          (E.accepted d.settings.writer before.catalog change) := by
    rw [h.catalog, hcatalog, h.documents, hwritten, Write.applyAll_applyAll_of_subset hdone]
  rcases hwrite : (d.replicate change).outcome { before with engine := s } with ⟨r', direct⟩
  obtain ⟨⟨report, rfl⟩, hstored⟩ := hdirect.of_outcome hwrite
  refine ⟨recovered, report, direct, hrun, rfl, ?_⟩
  rw [hrecovered, hstored, hall, hsame]

/-- Where the hash is read as that of another entity, or not at all, the job writes nothing, unless a change
of the other one waits as well. -/
theorem loses (h : Outage d E change before off back)
    (hlost : ∀ e, Entity.ofHash change.subject.hash = .ok e → ∀ full,
      d.cache.fullKey (.str (Change.key e)) = .ok full → (back.surroundings d).2.served full = none) :
    E.document? ((d.recover (d.replication change).toMessage).outcome back).2.engine =
      E.document? back.engine := by
  have hdone := Deployment.meets_runJob (E := E) (d.replication change)
    (P := fun _ documents => documents = E.document? back.engine)
    h.isStillFree h.isLinked h.isUp fun w hview hup hstill => by
      have hreplay := Deployment.meets_replay_of_lost E (h.isLinked.congr hview)
        fun e he full hfull => by rw [hview]; exact hlost e he full hfull
      rwa [hstill] at hreplay
  rw [Deployment.outcome_recover]
  obtain ⟨_, hdocuments, _⟩ := hdone
  exact hdocuments

/-! ## An outage for every entity -/

/-- A change that only says that there is the entity. -/
private def registration (e : Entity) : Change where
  subject := e
  subjectNumber := 1
  rows := [{ table := "smw_object_ids", rows := [⟨.insert, some 1, none, none, nofun⟩] }]

private def pageDeployment : Deployment Cluster where
  client := Cluster.client
  cache := {}
  queue := {}

private def pageData : DataIndex pageDeployment.client (pageDeployment.indexName IndexType.data) :=
  clusterData _

/-- The engine cannot be reached, and there is nothing yet. -/
private def darkWorld : World Cluster where
  engine := { isAvailable := false }
  catalog := { next := 2 }

/-- The change has been put off, and the engine can be reached. -/
private def litWorld (e : Entity) : World Cluster :=
  { ((pageDeployment.safeReplicate (registration e)).outcome darkWorld).2 with engine := {} }

private theorem holdsOnly_litWorld (e : Entity) :
    (litWorld e).HoldsOnly pageDeployment (registration e) := by
  refine ⟨rfl, some (darkWorld.host.network.now +
    pageDeployment.settings.retry.changesLifetimeSeconds), rfl, ?_⟩
  show decide (darkWorld.host.network.now + pageDeployment.settings.retry.changesLifetimeSeconds <
    darkWorld.host.network.now) = false
  decide +kernel

private theorem outage_registration (e : Entity) :
    Outage pageDeployment pageData (registration e) darkWorld
      ((pageDeployment.safeReplicate (registration e)).outcome darkWorld).2 (litWorld e) where
  distinct := List.nodup_nil
  floats := fun h => absurd rfl h
  isDeferring := rfl
  isFree := fun _ _ => rfl
  putOff := rfl
  catalog := rfl
  documents := rfl
  isUp := ⟨rfl, rfl, rfl⟩
  isStillFree := (holdsOnly_litWorld e).isFree
  isLinked := rfl
  unexpired := (holdsOnly_litWorld e).unexpired

private theorem written_registration (e : Entity) : ∃ document, pageData.document?
    ((pageDeployment.replicate (registration e)).outcome { darkWorld with engine := {} }).2.engine
      (toString (1 : Int)) = some document := by
  have hwritten := (Deployment.meets_replicate_of_isUp (E := pageData)
    (w := { darkWorld with engine := {} }) (registration e) (fun _ _ => rfl) rfl ⟨rfl, rfl, rfl⟩).2
  have haccepted : ∃ document, pageData.accepted pageDeployment.settings.writer darkWorld.catalog
      (registration e) = [.store (toString (1 : Int)) document] := ⟨_, rfl⟩
  obtain ⟨document, haccepted⟩ := haccepted
  refine ⟨document, ?_⟩
  rw [hwritten, haccepted]
  exact Write.apply_self (pageData.document? {}) (.store (toString (1 : Int)) document)

/-- A change of an entity that is put off comes to the same as one that is written at once, in every outage,
if and only if no text of the entity holds a number sign. -/
theorem recovers_tfae (e : Entity) : List.TFAE [
    e.IsPlain,
    ∀ {σ : Type} (d : Deployment σ) (E : DataIndex d.client (d.indexName IndexType.data))
      (change : Change) (before off back : World σ), change.subject = e →
        Outage d E change before off back → Recovers d E change before off back,
    ∀ {σ : Type} (d : Deployment σ) (E : DataIndex d.client (d.indexName IndexType.data))
      (change : Change) (before off back : World σ), change.subject = e →
        Outage d E change before off back → AgreesWithDirect d E change before back] := by
  tfae_have 1 → 2
  | hplain => by
      rintro d E change before off back rfl h
      exact h.recovers hplain
  tfae_have 2 → 3
  | hrecovers => by
      intro d E change before off back he h s hs hsame
      obtain ⟨recovered, report, direct, hjob, hdirect, hdocuments⟩ :=
        (hrecovers d E change before off back he h).2 s hs hsame
      rw [hjob, hdirect]
      exact hdocuments
  tfae_have 3 → 1
  | hagrees => by
      by_contra hplain
      have hlost : ∀ e', Entity.ofHash e.hash = .ok e' → ∀ full,
          pageDeployment.cache.fullKey (.str (Change.key e')) = .ok full →
            ((litWorld e).surroundings pageDeployment).2.served full = none := by
        rintro e' he' full ⟨⟩
        rw [(holdsOnly_litWorld e).served, if_neg]
        intro heq
        exact Entity.hash_ne_of_ofHash hplain he' (String.append_right_inj _ |>.mp heq).symm
      have hsame := hagrees pageDeployment pageData (registration e) darkWorld _ (litWorld e) rfl
        (outage_registration e) {} ⟨rfl, rfl, rfl⟩ rfl
      rw [(outage_registration e).loses hlost] at hsame
      have hnone : pageData.document? (litWorld e).engine (toString (1 : Int)) = none := rfl
      obtain ⟨document, hdocument⟩ := written_registration e
      rw [hsame, hdocument] at hnone
      cases hnone
  tfae_finish

end Outage

end FactIndex
