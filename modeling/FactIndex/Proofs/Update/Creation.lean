import FactIndex.Proofs.Update.Deferral

/-!
# Entities whose writing is put off

The job of an entity that could not be written names the entity by its hash. The hash is read back, but
it has no sort key. So what the job writes is the document of the entity as if it had no sort key of its
own, and that is the document that would have been written at once if and only if the entity is sorted
by its title anyway.

## Main definitions

* `EntityIndex`, `clusterEntities`: a search engine that also takes documents one by one.
* `World.IsCalm`: nothing stands in the way of a write.
* `DeferredCreation`: writing an entity is put off, and its job is run later.
* `DeferredCreation.agrees_iff`: what comes of it, against writing the entity at once.
-/

namespace FactIndex

open FactIndex.Effect FactIndex.Text

variable {σ : Type}

/-! ## Numbers -/

namespace Catalog

/-- An entity that is not known is given the next number. -/
theorem number_of_unknown (c : Catalog) (e : Entity) (h : c.numbers.get? (.entity e.hash) = none) :
    c.number (.entity e) = (c.next, { c with
      next := c.next + 1
      numbers := c.numbers.put (.entity e.hash) c.next
      entities := c.entities.put c.next e }) := by
  unfold number
  simp only [Numbered.key, h]
  show c.addEntity e = _
  unfold addEntity
  rw [h]
  rfl

/-- The number of an entity depends on its hash only. -/
theorem number_entity (c : Catalog) (e : Entity) :
    (c.number (.entity e)).1 = (c.numbers.get? (.entity e.hash)).getD c.next := by
  cases h : c.numbers.get? (.entity e.hash) with
  | some n =>
      rw [c.number_of_known (.entity e) h]
      rfl
  | none =>
      rw [c.number_of_unknown e h]
      rfl

/-- An entity keeps the number that it was given. -/
theorem number_number (c : Catalog) (e : Entity) :
    ((c.number (.entity e)).2.number (.entity e)).1 = (c.number (.entity e)).1 := by
  cases h : c.numbers.get? (.entity e.hash) with
  | some n => rw [c.number_of_known (.entity e) h, c.number_of_known (.entity e) h]
  | none =>
      rw [c.number_of_unknown e h, number_entity, Table.get?_put_self]
      rfl

end Catalog

/-! ## Writing an entity -/

/-- What is known of a search engine that also takes documents one by one, and that stays in reach while it
does so. -/
structure EntityIndex (client : SearchClient σ) (index : String) extends DataIndex client index where
  store : ∀ s id document,
    document? (client.send (.store index id document) s).2 = document? s ∨
      document? (client.send (.store index id document) s).2 =
        Function.update (document? s) id (some document)
  store_of_isUp : ∀ s id document, IsUp s → ∃ answer t,
    client.send (.store index id document) s = (.ok answer, t) ∧ IsUp t ∧
      document? t = Function.update (document? s) id (some document)

/-- The engine in memory as the keeper of the documents of an index. -/
def clusterEntities (index : String) : EntityIndex Cluster.client index where
  toDataIndex := clusterData index
  store c id document := by
    show (c.answer _).2.document? index = _ ∨ (c.answer _).2.document? index = _
    unfold Cluster.answer
    split
    · exact .inl rfl
    · split
      · exact .inr (c.document?_store id document)
      · exact .inl rfl
  store_of_isUp := by
    rintro c id document ⟨havailable, herrors, hrefused⟩
    exact ⟨_, _, c.answer_eq_perform havailable herrors _, ⟨havailable, herrors, hrefused⟩,
      c.document?_store id document⟩

/-- The document of an entity that has no property. -/
def Entity.bareDocument (e : Entity) : Json := .single "subject" e.subjectJson

/-- The id of the document of an entity. -/
def World.idOf (w : World σ) (e : Entity) : String := toString (w.catalog.number (.entity e)).1

theorem World.idOf_congr {d : Deployment σ} {w w' : World σ} {e : Entity}
    (h : w'.surroundings d = w.surroundings d) : w'.idOf e = w.idOf e :=
  congrArg (fun v : Catalog × Cache.View => toString (v.1.number (.entity e)).1) h

/-- Nothing stands in the way of a write: no rebuild is going on, and the cache and the engine are in
reach. -/
structure World.IsCalm (d : Deployment σ) (E : DataIndex d.client (d.indexName IndexType.data))
    (w : World σ) : Prop where
  isFree : w.IsFree d
  isLinked : w.IsLinked d
  isUp : E.IsUp w.engine

/-- The job that is put into the queue for an entity. -/
def Deployment.creation (d : Deployment σ) (e : Entity) : Job :=
  { create := some e.hash, origin := d.origin }

namespace Deployment

variable {d : Deployment σ} {E : EntityIndex d.client (d.indexName IndexType.data)}
  {w : World σ} {e : Entity}

theorem outcome_indexEntity (d : Deployment σ) (e : Entity) (w : World σ) :
    (d.indexEntity e).outcome w =
      (((d.client.send (.store (d.indexName IndexType.data) (w.idOf e) e.bareDocument)
          w.engine).1.mapError asFailure).map fun _ => (),
        { w with catalog := (w.catalog.number (.entity e)).2 }.asked d
          (.store (d.indexName IndexType.data) (w.idOf e) e.bareDocument)) := by
  have hnumber : (numberOf (.entity e) : Action σ Int).outcome w =
      (.ok (w.catalog.number (.entity e)).1,
        { w with catalog := (w.catalog.number (.entity e)).2 }) := rfl
  unfold indexEntity
  rw [outcome_bind_of_ok hnumber]
  exact d.outcome_demand_unit _ _

/-- The document of an entity is written under the entity's id, unless the engine is lost. -/
theorem meets_indexEntity (E : EntityIndex d.client (d.indexName IndexType.data)) (e : Entity) :
    (d.indexEntity e).Meets w fun r after => after.idOf e = w.idOf e ∧
      (E.document? after.engine = E.document? w.engine ∨ E.document? after.engine =
        Function.update (E.document? w.engine) (w.idOf e) (some e.bareDocument)) ∧
      (E.IsUp w.engine → r = .ok () ∧ E.document? after.engine =
        Function.update (E.document? w.engine) (w.idOf e) (some e.bareDocument)) := by
  unfold Meets
  rw [outcome_indexEntity]
  refine ⟨congrArg toString (w.catalog.number_number e), E.store _ _ _, fun hup => ?_⟩
  obtain ⟨answer, t, hsend, -, hdocuments⟩ := E.store_of_isUp w.engine (w.idOf e) e.bareDocument hup
  rw [World.asked_engine]
  simp only [hsend]
  exact ⟨rfl, hdocuments⟩

/-- Where nothing stands in the way a write may be tried. -/
theorem isSafe_of_isCalm (h : w.IsCalm d E.toDataIndex) (job : Job) : ∃ after,
    (d.isSafe job).outcome w = (.ok true, after) ∧ after.surroundings d = w.surroundings d ∧
      E.document? after.engine = E.document? w.engine ∧ E.IsUp after.engine := by
  have hlocked := isLocked_eq h.isFree h.isLinked
  have hview := leaves_isLocked (d := d) IndexType.data w
  rcases hr : (d.isLocked IndexType.data).outcome w with ⟨r, looked⟩
  have hengine : looked.engine = w.engine := (congrArg (·.2.engine) hr).symm
  rw [hr] at hlocked hview
  cases hlocked
  obtain ⟨hping, hup⟩ := ping_of_isUp (d := d) (E := E.toDataIndex) (w := looked)
    (by rw [hengine]; exact h.isUp)
  refine ⟨looked.asked d .ping, ?_, hview, ?_, hup⟩
  · unfold isSafe
    rw [outcome_bind_of_ok hr]
    simp only [Bool.false_eq_true, if_false]
    rw [outcome_bind_of_ok hping]
    rfl
  · rw [World.asked_engine, E.ping, hengine]

/-- An entity is written at once where nothing stands in the way. -/
theorem create_of_isCalm (h : w.IsCalm d E.toDataIndex) (e : Entity) : ∃ after,
    (d.create e).outcome w = (.ok true, after) ∧ E.document? after.engine =
      Function.update (E.document? w.engine) (w.idOf e) (some e.bareDocument) := by
  obtain ⟨tried, hsafe, hview, hsame, hup⟩ := isSafe_of_isCalm h (d.creation e)
  have hid : tried.idOf e = w.idOf e := World.idOf_congr hview
  have hwrite := meets_indexEntity (w := tried) E e
  rcases hr : (d.indexEntity e).outcome tried with ⟨r, after⟩
  obtain ⟨rfl, hdocuments⟩ := (hwrite.of_outcome hr).2.2 hup
  rw [hsame, hid] at hdocuments
  refine ⟨after, ?_, hdocuments⟩
  have hattempt : (Effect.attempt (d.indexEntity e)).outcome tried = (.ok (.ok ()), after) := by
    rw [outcome_attempt, hr]
  show (d.writeOrDefer (d.creation e) (d.indexEntity e)).outcome w = _
  unfold writeOrDefer
  rw [outcome_bind_of_ok hsafe]
  simp only [Bool.not_true, Bool.false_eq_true, if_false]
  rw [outcome_bind_of_ok hattempt]
  rfl

/-- What has come to pass when the writing of an entity has been put off: its document may have been
written, and its job is in the queue. -/
theorem create_put_off (E : EntityIndex d.client (d.indexName IndexType.data)) {off : World σ}
    (h : (d.create e).outcome w = (.ok false, off)) :
    (d.isDeferring = true → d.queue.Carries (off.queue, off.host) (d.creation e).toMessage) ∧
      off.idOf e = w.idOf e ∧
      (E.document? off.engine = E.document? w.engine ∨ E.document? off.engine =
        Function.update (E.document? w.engine) (w.idOf e) (some e.bareDocument)) := by
  have htried := meets_writeOrDefer (w := w) E.toDataIndex (d.creation e) (d.indexEntity e)
    (P := fun _ documents c => toString (c.number (.entity e)).1 = w.idOf e ∧
      (documents = E.document? w.engine ∨
        documents = Function.update (E.document? w.engine) (w.idOf e) (some e.bareDocument)))
    fun _ _ s hview hsame _ => by
      have hwrite := meets_indexEntity (w := s) E e
      rw [hsame, World.idOf_congr hview] at hwrite
      exact hwrite.mono fun r after ⟨hstays, hdocuments, _⟩ => ⟨hstays, hdocuments⟩
  obtain ⟨-, hcarries, ⟨hsame, hcatalog⟩ | ⟨-, hstays, hdocuments⟩⟩ := htried.of_outcome h
  · refine ⟨hcarries, ?_, .inl hsame⟩
    unfold World.idOf
    rw [hcatalog]
  · exact ⟨hcarries, hstays, hdocuments⟩

/-! ## Running the job -/

theorem replay_creation (d : Deployment σ) (e : Entity) : d.replay (d.creation e) = (do
    let named ← .ofExcept (Entity.ofHash e.hash)
    let _ ← d.indexEntity named
    return ()) := rfl

/-- The job of an entity whose hash is read back writes the entity without its sort key. -/
theorem meets_replay_creation (hplain : e.IsPlain) (hup : E.IsUp w.engine) :
    (d.replay (d.creation e)).Meets w fun r after => r = .ok () ∧
      E.document? after.engine = Function.update (E.document? w.engine) (w.idOf e)
        (some (Entity.bareDocument { e with sortkey := none })) := by
  have hid : w.idOf { e with sortkey := none } = w.idOf e := by
    unfold World.idOf
    rw [Catalog.number_entity, Catalog.number_entity]
    rfl
  have hwrite := meets_indexEntity (w := w) E { e with sortkey := none }
  rw [hid] at hwrite
  rw [replay_creation, Entity.ofHash_hash hplain]
  refine Meets.bind_of_ok rfl (hwrite.bind ?_ ?_)
  · rintro _ after ⟨-, -, hdone⟩
    exact Meets.pure ⟨rfl, (hdone hup).2⟩
  · rintro failure after ⟨-, -, hdone⟩
    cases (hdone hup).1

/-- Where nothing stands in the way the job of an entity succeeds. -/
theorem recover_creation (hplain : e.IsPlain) (h : w.IsCalm d E.toDataIndex) : ∃ after,
    (d.recover (d.creation e).toMessage).outcome w = (.ok ⟨d.creation e, .ok .succeeded⟩, after) ∧
      E.document? after.engine = Function.update (E.document? w.engine) (w.idOf e)
        (some (Entity.bareDocument { e with sortkey := none })) := by
  refine recover_of_replay (E := E.toDataIndex) _ h.isFree h.isLinked h.isUp
    fun s hview hup hsame => ?_
  have hreplay := meets_replay_creation (w := s) hplain hup
  rwa [hsame, World.idOf_congr hview] at hreplay

end Deployment

/-! ## Put off or at once -/

/-- The writing of an entity is put off, because a rebuild is going on or because the engine is out of reach
or is lost on the way. Its job is run when nothing stands in the way any more. No document has been
written in between. -/
structure DeferredCreation (d : Deployment σ)
    (E : EntityIndex d.client (d.indexName IndexType.data)) (e : Entity)
    (before off back : World σ) : Prop where
  isDeferring : d.isDeferring = true
  putOff : (d.create e).outcome before = (.ok false, off)
  documents : E.document? back.engine = E.document? off.engine
  id : back.idOf e = off.idOf e
  isCalm : back.IsCalm d E.toDataIndex

namespace DeferredCreation

variable {d : Deployment σ} {E : EntityIndex d.client (d.indexName IndexType.data)} {e : Entity}
  {before off back calm : World σ}

theorem bareDocument_unsorted (e : Entity) :
    Entity.bareDocument { e with sortkey := none } = e.bareDocument ↔
      withoutControls e.sortText = withoutControls e.text := by
  have hsort : Entity.sortText { e with sortkey := none } = e.text := rfl
  have htext : Entity.text { e with sortkey := none } = e.text := rfl
  simp only [Entity.bareDocument, Entity.subjectJson, Json.single, hsort, htext, Json.obj.injEq,
    List.cons.injEq, Prod.mk.injEq, Json.str.injEq, true_and, and_true]
  exact eq_comm

/-- The job of an entity that was put off is in the queue and succeeds. It writes the document under the id
under which it is written at once, and nothing else, but without the sort key of the entity. So it
comes to the same if and only if the entity is sorted by its title. -/
theorem agrees_iff (h : DeferredCreation d E e before off back) (hplain : e.IsPlain)
    (hcalm : calm.IsCalm d E.toDataIndex) (hsame : E.document? calm.engine = E.document? before.engine)
    (hid : calm.idOf e = before.idOf e) :
    d.queue.Carries (off.queue, off.host) (d.creation e).toMessage ∧
      ∃ recovered direct,
        (d.recover (d.creation e).toMessage).outcome back =
          (.ok ⟨d.creation e, .ok .succeeded⟩, recovered) ∧
        (d.create e).outcome calm = (.ok true, direct) ∧
        E.document? recovered.engine = Function.update (E.document? before.engine) (before.idOf e)
          (some (Entity.bareDocument { e with sortkey := none })) ∧
        E.document? direct.engine = Function.update (E.document? before.engine) (before.idOf e)
          (some e.bareDocument) ∧
        (E.document? recovered.engine = E.document? direct.engine ↔
          withoutControls e.sortText = withoutControls e.text) := by
  obtain ⟨hcarries, hstays, hdone⟩ := Deployment.create_put_off E h.putOff
  obtain ⟨recovered, hrun, hrecovered⟩ := Deployment.recover_creation hplain h.isCalm
  obtain ⟨direct, hcreate, hdirect⟩ := Deployment.create_of_isCalm hcalm e
  rw [hsame, hid] at hdirect
  -- Whether the document had been written before the engine was lost makes no difference.
  have hall : E.document? recovered.engine = Function.update (E.document? before.engine)
      (before.idOf e) (some (Entity.bareDocument { e with sortkey := none })) := by
    rw [hrecovered, h.documents, h.id, hstays]
    rcases hdone with hdone | hdone
    · rw [hdone]
    · rw [hdone, Function.update_idem]
  refine ⟨hcarries h.isDeferring, recovered, direct, hrun, hcreate, hall, hdirect, ?_⟩
  rw [hall, hdirect, ← bareDocument_unsorted]
  constructor
  · intro heq
    simpa using congrFun heq (before.idOf e)
  · intro heq
    rw [heq]

/-! ### An entity with a sort key -/

private def awayDeployment : Deployment Cluster where
  client := Cluster.client
  cache := {}
  queue := {}

private def awayEntities :
    EntityIndex awayDeployment.client (awayDeployment.indexName IndexType.data) :=
  clusterEntities _

private def sortedTown : Entity := { title := "Town", sortkey := some "zz" }

/-- The engine cannot be reached. -/
private def awayWorld : World Cluster where
  engine := { isAvailable := false }
  catalog := { next := 2 }

/-- The town has been put off. -/
private def awayOff : World Cluster := ((awayDeployment.create sortedTown).outcome awayWorld).2

theorem agrees_iff_sorted :
    sortedTown.IsPlain ∧
      DeferredCreation awayDeployment awayEntities sortedTown awayWorld awayOff
        { awayOff with engine := {} } ∧
      ∃ recovered direct,
        (awayDeployment.recover (awayDeployment.creation sortedTown).toMessage).outcome
            { awayOff with engine := {} } =
          (.ok ⟨awayDeployment.creation sortedTown, .ok .succeeded⟩, recovered) ∧
        (awayDeployment.create sortedTown).outcome { awayWorld with engine := {} } =
          (.ok true, direct) ∧
        awayEntities.document? recovered.engine ≠ awayEntities.document? direct.engine := by
  have hplain : sortedTown.IsPlain := by decide
  have hput : DeferredCreation awayDeployment awayEntities sortedTown awayWorld awayOff
      { awayOff with engine := {} } :=
    ⟨rfl, rfl, rfl, rfl, fun _ _ => rfl, rfl, rfl, rfl, rfl⟩
  have hcalm : World.IsCalm awayDeployment awayEntities.toDataIndex
      { awayWorld with engine := {} } := ⟨fun _ _ => rfl, rfl, rfl, rfl, rfl⟩
  obtain ⟨-, recovered, direct, hrun, hcreate, -, -, hiff⟩ := agrees_iff hput hplain hcalm rfl rfl
  refine ⟨hplain, hput, recovered, direct, hrun, hcreate, fun heq => ?_⟩
  exact absurd (hiff.mp heq) (by decide +kernel)

end DeferredCreation

end FactIndex
