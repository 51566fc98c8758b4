import FactIndex.Proofs.Update.Creation
import FactIndex.Proofs.Update.Exact
import FactIndex.Proofs.Update.Outage

/-!
# Changes that are superseded

Two changes of one entity are put off during an outage. Both have the same place in the cache, so of the
first one nothing is left, and both jobs write the second one. This comes to the same as writing both if
and only if the second one writes over all that the first one writes.

## Main definitions

* `Write.Overwrites`, `Change.Replaces`, `Change.Covers`: writes that write over other writes, and
  changes that do.
* `Change.Covers.overwrites`, `Change.covers_of_becomes`: what is covered makes no difference, and the
  rest does.
* `SteadyIndex`, `clusterIndex`: a search engine that stays in reach.
* `DoubleOutage`: two changes are put off, and their jobs are run when the engine is back.
* `DoubleOutage.covers_tfae`: the changes for which it comes to the same as writing both.
-/

namespace FactIndex

open FactIndex.Effect

variable {σ : Type}

/-! ## Writing over writes -/

namespace Write

variable {documents : String → Option Json}

/-- Whatever is written is written over. A mention does not write over what is stored. -/
def Overwrites (later earlier : List Write) : Prop :=
  ∀ w ∈ earlier, ∃ v ∈ later, v.id = w.id ∧ (v.isMention = true → w.isMention = true)

/-- A write to a document makes no difference if it is written over. -/
theorem applyAll_apply_of_id {v w : Write} {ws : List Write} (hmem : v ∈ ws) (hid : v.id = w.id)
    (hmention : v.isMention = true → w.isMention = true) :
    applyAll (w.apply documents) ws = applyAll documents ws := by
  cases hv : v.isMention with
  | false => exact applyAll_eq_of_mem hmem hv fun id hne => apply_of_ne (hid ▸ hne)
  | true =>
      -- Two mentions of one document are the same write.
      have hsame : v = w := by
        cases v with
        | mention =>
            cases w with
            | mention => exact congrArg Write.mention hid
            | delete => exact absurd (hmention hv) Bool.false_ne_true
            | store => exact absurd (hmention hv) Bool.false_ne_true
        | delete => cases hv
        | store => cases hv
      exact applyAll_apply_of_mem (hsame ▸ hmem)

/-- By induction on the writes that came before: they make no difference if they are written over. -/
theorem applyAll_applyAll_of_overwrites {earlier later : List Write}
    (h : Overwrites later earlier) :
    applyAll (applyAll documents earlier) later = applyAll documents later := by
  induction earlier generalizing documents with
  | nil => rfl
  | cons w earlier ih =>
      obtain ⟨v, hmem, hid, hmention⟩ := h w List.mem_cons_self
      rw [applyAll_cons, ih fun u hu => h u (List.mem_cons_of_mem w hu),
        applyAll_apply_of_id hmem hid hmention]

theorem Overwrites.mono {earlier later done : List Write} (h : Overwrites later earlier)
    (hdone : done ⊆ earlier) : Overwrites later done := fun w hw => h w (hdone hw)

theorem get?_mentioned (document : Option Json) {key : String} (h : key ≠ "noop") :
    (mentioned document).get? key = document.bind (·.get? key) := by
  have hput : ∀ ms : Members, (Json.obj (Table.put ms "noop" (.arr []))).get? key =
      (Json.obj ms).get? key := fun ms => Table.get?_put_of_ne ms _ (Ne.symm h)
  have hnoop : (Json.obj [("noop", .arr [])]).get? key = none := hput []
  cases document with
  | none => exact hnoop
  | some document =>
      cases document with
      | obj ms => exact hput ms
      | _ => exact hnoop

end Write

/-! ## Changes that cover others -/

namespace Change

variable {w : WriterSettings} {c : Catalog} {earlier later : Change}

/-- A change stores or deletes the document of an entity, so that nothing of the old one is left. -/
def Replaces (w : WriterSettings) (c : Catalog) (change : Change) (n : Int) : Prop :=
  n ∈ (Mapped.ofChange w c change).documents.keys ∨ n ∈ change.deletedParts

instance (w : WriterSettings) (c : Catalog) (change : Change) (n : Int) :
    Decidable (change.Replaces w c n) := inferInstanceAs (Decidable (_ ∨ _))

/-- A change writes over all that another one writes: what that one replaces is replaced anew, and what it
mentions is at least mentioned. -/
structure Covers (w : WriterSettings) (c : Catalog) (later earlier : Change) : Prop where
  replaced : ∀ n, earlier.Replaces w c n → later.Replaces w c n
  mentioned : ∀ n ∈ (Mapped.ofChange w c earlier).mentioned,
    later.Replaces w c n ∨ n ∈ (Mapped.ofChange w c later).mentioned

theorem exists_mem_writes_of_replaces {change : Change} {n : Int} (h : change.Replaces w c n) :
    ∃ v ∈ change.writes w c, v.id = toString n ∧ v.isMention = false := by
  unfold writes
  rcases h with h | h
  · obtain ⟨entry, hentry, rfl⟩ := List.mem_map.mp h
    exact ⟨_, List.mem_append_right _ (List.mem_map_of_mem hentry), rfl, rfl⟩
  · exact ⟨_, List.mem_append_left _ (List.mem_append_left _ (List.mem_map_of_mem h)), rfl, rfl⟩

theorem mention_mem_writes {change : Change} {n : Int}
    (h : n ∈ (Mapped.ofChange w c change).mentioned) :
    .mention (toString n) ∈ change.writes w c :=
  List.mem_append_left _ (List.mem_append_right _ (List.mem_map_of_mem h))

/-- A change that covers another one makes its writes over. -/
theorem Covers.overwrites (h : later.Covers w c earlier) :
    Write.Overwrites (later.writes w c) (earlier.writes w c) := by
  intro v hv
  have hreplaced : ∀ n, v.id = toString n → later.Replaces w c n →
      ∃ u ∈ later.writes w c, u.id = v.id ∧ (u.isMention = true → v.isMention = true) := by
    intro n hid hn
    obtain ⟨u, hu, hsame, hplain⟩ := exists_mem_writes_of_replaces hn
    exact ⟨u, hu, hsame.trans hid.symm, by rw [hplain]; nofun⟩
  unfold writes at hv
  rcases List.mem_append.mp hv with hv | hv
  · rcases List.mem_append.mp hv with hv | hv
    · obtain ⟨n, hn, rfl⟩ := List.mem_map.mp hv
      exact hreplaced n rfl (h.replaced n (.inr hn))
    · obtain ⟨n, hn, rfl⟩ := List.mem_map.mp hv
      rcases h.mentioned n hn with hagain | hagain
      · exact hreplaced n rfl hagain
      · exact ⟨_, mention_mem_writes hagain, rfl, fun _ => rfl⟩
  · obtain ⟨entry, hentry, rfl⟩ := List.mem_map.mp hv
    exact hreplaced entry.1 rfl (h.replaced _ (.inl (List.mem_map_of_mem hentry)))

/-- A document that is not replaced can only be mentioned. -/
theorem becomes_of_not_replaces {change : Change} {n : Int} (h : ¬change.Replaces w c n)
    (document : Option Json) : change.becomes w c n document =
      if n ∈ (Mapped.ofChange w c change).mentioned then some (Write.mentioned document)
      else document := by
  obtain ⟨hstored, hdeleted⟩ := not_or.mp h
  rw [becomes, Table.get?_eq_none_iff.mpr hstored, if_neg hdeleted]
  rfl

/-- Whether a document tells its subject. -/
private def tells (document : Option Json) : Bool := (document.bind (·.get? "subject")).isSome

private theorem tells_mentioned (document : Option Json) :
    tells (some (Write.mentioned document)) = tells document := by
  unfold tells
  rw [Option.bind_some, Write.get?_mentioned document (by decide)]

/-- What a change replaces is replaced anew by one that makes up for it, whatever there was. -/
theorem replaces_of_becomes {n : Int} (h : ∀ document,
    later.becomes w c n (earlier.becomes w c n document) = later.becomes w c n document)
    (hn : earlier.Replaces w c n) : later.Replaces w c n := by
  by_contra hout
  -- What is not replaced tells its subject before and after, or neither before nor after.
  have hstays : ∀ document, tells (later.becomes w c n document) = tells document := by
    intro document
    rw [becomes_of_not_replaces hout]
    split
    · exact tells_mentioned document
    · rfl
  have hsame : ∀ document, tells (earlier.becomes w c n document) = tells document := by
    intro document
    rw [← hstays, h, hstays]
  by_cases hstored : n ∈ (Mapped.ofChange w c earlier).documents.keys
  · obtain ⟨document, hdocument⟩ :
        ∃ document, (Mapped.ofChange w c earlier).documents.get? n = some document :=
      Option.ne_none_iff_exists'.mp (Table.get?_eq_none_iff.not_left.mpr hstored)
    have hnew := hsame none
    rw [becomes, hdocument] at hnew
    cases hnew
  · have hlost : tells (if n ∈ (Mapped.ofChange w c earlier).mentioned then
        some (Write.mentioned none) else none) = false := by
      split
      · exact tells_mentioned none
      · rfl
    have hgone := hsame (some later.subject.bareDocument)
    rw [becomes, Table.get?_eq_none_iff.mpr hstored, if_pos (hn.resolve_left hstored)] at hgone
    exact Bool.false_ne_true (hlost.symm.trans hgone)

/-- A change that makes up for another one, whatever there was, covers that one. -/
theorem covers_of_becomes (h : ∀ n document,
    later.becomes w c n (earlier.becomes w c n document) = later.becomes w c n document) :
    later.Covers w c earlier := by
  refine ⟨fun n => replaces_of_becomes (h n), fun n hn => ?_⟩
  by_contra hout
  obtain ⟨hlater, hunmentioned⟩ := not_or.mp hout
  have hearlier := fun hn => hlater (replaces_of_becomes (h n) hn)
  have hnone := h n none
  rw [becomes_of_not_replaces hlater, becomes_of_not_replaces hlater, if_neg hunmentioned,
    if_neg hunmentioned, becomes_of_not_replaces hearlier, if_pos hn] at hnone
  cases hnone

end Change

/-! ## Writing both -/

/-- A search engine that stays in reach while it writes. -/
structure SteadyIndex (client : SearchClient σ) (index : String) extends DataIndex client index where
  isUp_bulk : ∀ s (ws : List Write), IsUp s →
    IsUp (client.send (.bulk (ws.flatMap (Write.lines index))) s).2

/-- The engine in memory stays in reach. -/
def clusterIndex (index : String) : SteadyIndex Cluster.client index where
  toDataIndex := clusterData index
  isUp_bulk := by
    rintro c ws ⟨havailable, herrors, hrefused⟩
    obtain ⟨indices, hall, -⟩ := c.exists_writeAll_eq index ws
    have hsend : (c.answer (.bulk (ws.flatMap (Write.lines index)))).2 = { c with indices } := by
      rw [c.answer_eq_perform havailable herrors]
      exact hall
    show Cluster.isAvailable (c.answer _).2 = true ∧ Cluster.errors (c.answer _).2 = [] ∧
      Cluster.refused (c.answer _).2 = []
    rw [hsend]
    exact ⟨havailable, herrors, hrefused⟩

namespace Deployment

variable {d : Deployment σ} {w : World σ} {change : Change}

/-- Writes one change and then another one. -/
def replicateBoth (d : Deployment σ) (first second : Change) : Action σ Members := do
  let _ ← d.replicate first
  d.replicate second

/-- The engine is still in reach when a change has been written. -/
theorem meets_replicate_isUp (E : SteadyIndex d.client (d.indexName IndexType.data))
    (change : Change) (hfree : w.IsFree d) (hlink : w.IsLinked d) (hup : E.IsUp w.engine) :
    (d.replicate change).Meets w fun _ after => E.IsUp after.engine := by
  obtain ⟨looked, -, hengine, houtcome⟩ := outcome_replicate change hfree hlink
  unfold Meets
  rw [houtcome]
  rw [← hengine] at hup
  unfold Deployment.bulk
  split
  · exact hup
  · have hstill := E.isUp_bulk looked.engine (change.writes d.settings.writer w.catalog) hup
    rw [outcome_bind, Deployment.outcome_demand]
    cases (d.client.send _ looked.engine).1 <;> simpa [Except.mapError] using hstill

/-- Where the engine is in reach, the writes of both changes are done. -/
theorem meets_replicateBoth (E : SteadyIndex d.client (d.indexName IndexType.data))
    (first second : Change) (hfree : w.IsFree d) (hlink : w.IsLinked d) (hup : E.IsUp w.engine) :
    (d.replicateBoth first second).Meets w fun r after => (∃ report, r = .ok report) ∧
      E.document? after.engine = Write.applyAll
        (Write.applyAll (E.document? w.engine) (E.accepted d.settings.writer w.catalog first))
        (E.accepted d.settings.writer w.catalog second) := by
  have hwrite := meets_replicate_of_isUp (E := E.toDataIndex) first hfree hlink hup
  have hstill := meets_replicate_isUp E first hfree hlink hup
  have hview := leaves_replicate (d := d) first w
  rcases hr : (d.replicate first).outcome w with ⟨r, once⟩
  obtain ⟨⟨report, rfl⟩, hdocuments⟩ := hwrite.of_outcome hr
  rw [hr] at hview
  have hcatalog : once.catalog = w.catalog := congrArg Prod.fst hview
  have hagain := meets_replicate_of_isUp (E := E.toDataIndex) second (hfree.congr hview)
    (hlink.congr hview) (hstill.of_outcome hr)
  rw [hdocuments, hcatalog] at hagain
  exact Meets.bind_of_ok hr hagain

end Deployment

/-! ## Putting off both -/

/-- Two changes of one entity are put off while the engine is out of reach, and their jobs are run when it
is back. Nothing has been written in between, and what was saved has not expired. -/
structure DoubleOutage (d : Deployment σ) (E : SteadyIndex d.client (d.indexName IndexType.data))
    (first second : Change) (before between again off back later : World σ) : Prop where
  sameSubject : second.subject.hash = first.subject.hash
  takesAll : ∀ v, E.refuses v = false
  isFree : before.IsFree d
  putOff : (d.safeReplicate first).outcome before = (.ok false, between)
  catalog : again.catalog = between.catalog
  documents : E.document? again.engine = E.document? between.engine
  /-- What becomes of the second change up to where the first job is run. -/
  outage : Outage d E.toDataIndex second again off back
  laterCatalog : later.catalog = off.catalog
  laterDocuments : E.document? later.engine =
    E.document? ((d.recover (d.replication first).toMessage).outcome back).2.engine
  isCalm : later.IsCalm d E.toDataIndex
  stillUnexpired : ∀ full, d.cache.fullKey (.str (Change.key second.subject)) = .ok full →
    d.cache.served (later.cache, later.host) full = d.cache.kept (off.cache, off.host) full

namespace DoubleOutage

variable {d : Deployment σ} {E : SteadyIndex d.client (d.indexName IndexType.data)}
  {first second : Change} {before between again off back later : World σ}

/-- Both jobs are in the queue and succeed, and when they have been run the documents are those that both
changes make where they are written at once. -/
def Recovers (d : Deployment σ) (E : SteadyIndex d.client (d.indexName IndexType.data))
    (first second : Change) (before between off back later : World σ) : Prop :=
  d.queue.Carries (between.queue, between.host) (d.replication first).toMessage ∧
    d.queue.Carries (off.queue, off.host) (d.replication second).toMessage ∧
    ∀ s, E.IsUp s → E.document? s = E.document? before.engine → ∃ ran recovered report direct,
      (d.recover (d.replication first).toMessage).outcome back =
          (.ok ⟨d.replication first, .ok .succeeded⟩, ran) ∧
        (d.recover (d.replication second).toMessage).outcome later =
          (.ok ⟨d.replication second, .ok .succeeded⟩, recovered) ∧
        (d.replicateBoth first second).outcome { before with engine := s } = (.ok report, direct) ∧
        E.document? recovered.engine = E.document? direct.engine

/-- Whatever is answered, the documents are those that both changes make where they are written at once. -/
def AgreesWithDirect (d : Deployment σ) (E : SteadyIndex d.client (d.indexName IndexType.data))
    (first second : Change) (before later : World σ) : Prop :=
  ∀ s, E.IsUp s → E.document? s = E.document? before.engine →
    E.document? ((d.recover (d.replication second).toMessage).outcome later).2.engine =
      E.document? ((d.replicateBoth first second).outcome { before with engine := s }).2.engine

theorem accepted_eq (h : DoubleOutage d E first second before between again off back later)
    (w : WriterSettings) (c : Catalog) (change : Change) :
    E.accepted w c change = change.writes w c :=
  List.filter_eq_self.mpr fun v _ => by rw [h.takesAll]; rfl

/-- Both jobs succeed, and both write the second change. Of the first one there is what had been written
before it was put off. -/
theorem succeeds (h : DoubleOutage d E first second before between again off back later)
    (hplain : second.subject.IsPlain) : ∃ ran recovered,
      (d.recover (d.replication first).toMessage).outcome back =
          (.ok ⟨d.replication first, .ok .succeeded⟩, ran) ∧
        (d.recover (d.replication second).toMessage).outcome later =
          (.ok ⟨d.replication second, .ok .succeeded⟩, recovered) ∧
        E.document? recovered.engine = Write.applyAll (E.document? between.engine)
          (second.writes d.settings.writer before.catalog) := by
  obtain ⟨-, -, hbetween, -, -, -⟩ := Deployment.put_off E.toDataIndex h.putOff
  obtain ⟨-, -, hoff, ⟨done, hdone, hwritten⟩, ⟨full, hfull, hkept⟩, -⟩ :=
    Deployment.put_off E.toDataIndex h.outage.putOff
  have hcatalog : off.catalog = before.catalog := hoff.trans (h.catalog.trans hbetween)
  -- The jobs of both changes say the same.
  have hjob : d.replication first = d.replication second := by
    unfold Deployment.replication
    rw [h.sameSubject]
  obtain ⟨ran, hrun, hran⟩ := Deployment.recover_replication (E := E.toDataIndex) (w := back)
    hplain h.outage.isStillFree h.outage.isLinked h.outage.isUp hfull
    ((h.outage.unexpired full hfull).trans hkept) h.outage.readBack_form h.outage.distinct
  obtain ⟨recovered, hrerun, hrecovered⟩ :=
    Deployment.recover_replication (E := E.toDataIndex) (w := later) hplain h.isCalm.isFree
      h.isCalm.isLinked h.isCalm.isUp hfull ((h.stillUnexpired full hfull).trans hkept)
      h.outage.readBack_form h.outage.distinct
  have hlater := h.laterDocuments
  rw [hjob, hrun] at hlater
  refine ⟨ran, recovered, by rw [hjob]; exact hrun, hrerun, ?_⟩
  rw [h.outage.catalog, hcatalog] at hran
  rw [h.laterCatalog, hcatalog] at hrecovered
  rw [h.catalog, hbetween] at hdone
  rw [hrecovered, hlater, hran, h.outage.documents, hwritten, h.documents,
    Write.applyAll_applyAll_of_subset (List.Subset.refl _),
    Write.applyAll_applyAll_of_subset hdone, h.accepted_eq]

/-- What is written at once. -/
theorem direct (h : DoubleOutage d E first second before between again off back later) {s : σ}
    (hs : E.IsUp s) (hsame : E.document? s = E.document? before.engine) : ∃ report direct,
      (d.replicateBoth first second).outcome { before with engine := s } = (.ok report, direct) ∧
        E.document? direct.engine = Write.applyAll
          (Write.applyAll (E.document? before.engine)
            (first.writes d.settings.writer before.catalog))
          (second.writes d.settings.writer before.catalog) := by
  obtain ⟨hlink, -⟩ := Deployment.put_off E.toDataIndex h.putOff
  have hboth := Deployment.meets_replicateBoth (w := { before with engine := s }) E first second
    (h.isFree.congr rfl) (hlink.congr rfl) hs
  rcases hr : (d.replicateBoth first second).outcome { before with engine := s } with ⟨r, direct⟩
  obtain ⟨⟨report, rfl⟩, hdocuments⟩ := hboth.of_outcome hr
  rw [h.accepted_eq, h.accepted_eq, hsame] at hdocuments
  exact ⟨report, direct, rfl, hdocuments⟩

/-- Where the second change covers the first one, nothing is lost. -/
theorem recovers (h : DoubleOutage d E first second before between again off back later)
    (hplain : second.subject.IsPlain)
    (hcovers : second.Covers d.settings.writer before.catalog first) :
    Recovers d E first second before between off back later := by
  obtain ⟨-, -, -, ⟨done, hdone, hwritten⟩, -, hcarries⟩ :=
    Deployment.put_off E.toDataIndex h.putOff
  obtain ⟨-, -, -, -, -, hcarriesAgain⟩ := Deployment.put_off E.toDataIndex h.outage.putOff
  refine ⟨hcarries h.outage.isDeferring, hcarriesAgain h.outage.isDeferring, fun s hs hsame => ?_⟩
  obtain ⟨ran, recovered, hrun, hrerun, hrecovered⟩ := h.succeeds hplain
  obtain ⟨report, direct, hboth, hdirect⟩ := h.direct hs hsame
  rw [h.accepted_eq] at hdone
  refine ⟨ran, recovered, report, direct, hrun, hrerun, hboth, ?_⟩
  rw [hrecovered, hdirect, hwritten,
    Write.applyAll_applyAll_of_overwrites (hcovers.overwrites.mono hdone),
    Write.applyAll_applyAll_of_overwrites hcovers.overwrites]

/-! ### A double outage for all changes -/

private def sharedDeployment (settings : WriterSettings) : Deployment Cluster where
  settings := { writer := settings }
  client := Cluster.client
  cache := {}
  queue := {}

private def sharedName (settings : WriterSettings) : String :=
  (sharedDeployment settings).indexName IndexType.data

private def sharedIndex (settings : WriterSettings) :
    SteadyIndex (sharedDeployment settings).client
      ((sharedDeployment settings).indexName IndexType.data) :=
  clusterIndex _

/-- An engine that has at most one document. -/
private def holding (name id : String) (document : Option Json) : Cluster where
  indices := [(name, (document.map (Prod.mk id)).toList)]

private theorem document?_holding (name id : String) (document : Option Json) :
    (holding name id document).document? name id = document := by
  have hname : (holding name id document).resolve name = name := Cluster.resolve_of_get?_eq_none rfl
  have hdocs : (holding name id document).documents name =
      (document.map (Prod.mk id)).toList := by
    unfold Cluster.documents
    rw [hname]
    show (Table.get? [(name, (document.map (Prod.mk id)).toList)] name).getD [] = _
    rw [Table.get?_cons, if_pos rfl]
    rfl
  unfold Cluster.document?
  rw [hdocs]
  cases document with
  | none => rfl
  | some document => exact if_pos rfl

/-- When a change that is put off expires. -/
private def expiry : Option Float :=
  some (({} : Network).now + RetrySettings.changesLifetimeSeconds {})

/-- A change is saved. -/
private def saving (change : Change) (w : World Cluster) : World Cluster :=
  let memory := w.cache.memory.put w.host.network.now (Change.key change.subject) change.toJson
    (some (RetrySettings.changesLifetimeSeconds {}))
  { w with cache := { w.cache with memory } }

section Run

variable (settings : WriterSettings) (c : Catalog) (id : String) (document : Option Json)
  (first second : Change)

/-- The engine cannot be reached. -/
private def outWorld : World Cluster where
  engine := { holding (sharedName settings) id document with isAvailable := false }
  catalog := c

/-- The first change has been put off. -/
private def onceWorld : World Cluster :=
  let d := sharedDeployment settings
  saving first ((d.defer (d.replication first)).outcome
    ((outWorld settings c id document).asked d .ping)).2

/-- The second change has been put off as well. -/
private def twiceWorld : World Cluster :=
  let d := sharedDeployment settings
  saving second ((d.defer (d.replication second)).outcome
    ((onceWorld settings c id document first).asked d .ping)).2

/-- The engine is back. -/
private def backWorld : World Cluster :=
  { twiceWorld settings c id document first second with
    engine := holding (sharedName settings) id document }

/-- The first job has been run, and the engine is in reach. -/
private def laterWorld (ran : Cluster) : World Cluster :=
  { backWorld settings c id document first second with
    engine := { ran with isAvailable := true, errors := [], refused := [] } }

private theorem fresh_saved (change : Change) :
    Cache.Entry.hasExpired ({} : Network).now ⟨change.toJson, expiry⟩ = false := by
  show decide (({} : Network).now + RetrySettings.changesLifetimeSeconds {} <
    ({} : Network).now) = false
  decide +kernel

private theorem outcome_saveChange (change : Change) (w : World Cluster) :
    ((sharedDeployment settings).saveChange change).outcome w = (.ok (), saving change w) := by
  have hretry : (sharedDeployment settings).settings.retry = {} := rfl
  unfold Deployment.saveChange
  rw [hretry]
  rfl

private theorem holdsOnly_onceWorld : (onceWorld settings c id document first).HoldsOnly
    (sharedDeployment settings) first :=
  ⟨rfl, expiry, rfl, fresh_saved first⟩

private theorem holdsOnly_twiceWorld (hsame : second.subject.hash = first.subject.hash) :
    (twiceWorld settings c id document first second).HoldsOnly (sharedDeployment settings)
      second := by
  refine ⟨rfl, expiry, ?_, fresh_saved second⟩
  show Table.put [(Change.key first.subject, _)] (Change.key second.subject) _ = _
  unfold Change.key
  rw [hsame]
  exact if_pos rfl

private theorem putOff_first : ((sharedDeployment settings).safeReplicate first).outcome
    (outWorld settings c id document) = (.ok false, onceWorld settings c id document first) :=
  Deployment.safeReplicate_of_unreachable rfl rfl rfl (outcome_saveChange settings first _)

private theorem putOff_second : ((sharedDeployment settings).safeReplicate second).outcome
    (onceWorld settings c id document first) =
      (.ok false, twiceWorld settings c id document first second) :=
  Deployment.safeReplicate_of_unreachable (holdsOnly_onceWorld settings c id document first).isLocked
    rfl rfl (outcome_saveChange settings second _)

/-- There is a double outage for all changes of one entity, whatever document there was before. -/
private theorem doubleOutage_holding (hsame : second.subject.hash = first.subject.hash)
    (hdistinct : second.properties.keys.Nodup) {ran : Cluster}
    (hran : (((sharedDeployment settings).recover
      ((sharedDeployment settings).replication first).toMessage).outcome
        (backWorld settings c id document first second)).2.engine = ran) :
    DoubleOutage (sharedDeployment settings) (sharedIndex settings) first second
      (outWorld settings c id document) (onceWorld settings c id document first)
      (onceWorld settings c id document first) (twiceWorld settings c id document first second)
      (backWorld settings c id document first second)
      (laterWorld settings c id document first second ran) where
  sameSubject := hsame
  takesAll _ := rfl
  isFree _ _ := rfl
  putOff := putOff_first settings c id document first
  catalog := rfl
  documents := rfl
  outage :=
    { distinct := hdistinct
      floats := fun h => absurd rfl h
      isDeferring := rfl
      isFree := (holdsOnly_onceWorld settings c id document first).isFree
      putOff := putOff_second settings c id document first second
      catalog := rfl
      documents := rfl
      isUp := ⟨rfl, rfl, rfl⟩
      isStillFree :=
        (holdsOnly_twiceWorld settings c id document first second hsame).isFree.congr rfl
      isLinked := rfl
      unexpired := (holdsOnly_twiceWorld settings c id document first second hsame).unexpired }
  laterCatalog := rfl
  laterDocuments := by
    rw [hran]
    exact congrFun (Cluster.document?_congr rfl rfl) _
  isCalm :=
    { isFree := (holdsOnly_twiceWorld settings c id document first second hsame).isFree.congr rfl
      isLinked := rfl
      isUp := ⟨rfl, rfl, rfl⟩ }
  stillUnexpired := (holdsOnly_twiceWorld settings c id document first second hsame).unexpired

end Run

/-- Two changes of one entity that are put off come to the same as writing both, in every outage, if and only
if the second one covers the first one. -/
theorem covers_tfae (settings : WriterSettings) (c : Catalog) (first second : Change)
    (hsame : second.subject.hash = first.subject.hash) (hplain : second.subject.IsPlain)
    (hdistinct : second.properties.keys.Nodup) : List.TFAE [
      second.Covers settings c first,
      ∀ {σ : Type} (d : Deployment σ) (E : SteadyIndex d.client (d.indexName IndexType.data))
        (before between again off back later : World σ), d.settings.writer = settings →
          before.catalog = c →
          DoubleOutage d E first second before between again off back later →
            Recovers d E first second before between off back later,
      ∀ {σ : Type} (d : Deployment σ) (E : SteadyIndex d.client (d.indexName IndexType.data))
        (before between again off back later : World σ), d.settings.writer = settings →
          before.catalog = c →
          DoubleOutage d E first second before between again off back later →
            AgreesWithDirect d E first second before later] := by
  tfae_have 1 → 2
  | hcovers => by
      rintro d E before between again off back later rfl rfl h
      exact h.recovers hplain hcovers
  tfae_have 2 → 3
  | hrecovers => by
      intro d E before between again off back later hsettings hc h s hs hstart
      obtain ⟨ran, recovered, report, direct, -, hjob, hboth, hdocuments⟩ :=
        (hrecovers d E before between again off back later hsettings hc h).2.2 s hs hstart
      rw [hjob, hboth]
      exact hdocuments
  tfae_have 3 → 1
  | hagrees => by
      refine Change.covers_of_becomes fun n document => ?_
      let s := holding (sharedName settings) (toString n) document
      have h := doubleOutage_holding settings c (toString n) document first second hsame hdistinct
        rfl
      have hend := hagrees (sharedDeployment settings) (sharedIndex settings) _ _ _ _ _ _ rfl rfl h s
        ⟨rfl, rfl, rfl⟩ rfl
      obtain ⟨-, recovered, -, hjob, hrecovered⟩ := h.succeeds hplain
      obtain ⟨report, direct, hboth, hdirect⟩ := h.direct (s := s) ⟨rfl, rfl, rfl⟩ rfl
      rw [hjob, hboth] at hend
      have hdocument := congrFun (hrecovered.symm.trans (hend.trans hdirect)) (toString n)
      rw [Change.applyAll_writes, Change.applyAll_writes, Change.applyAll_writes] at hdocument
      have hstart : (sharedIndex settings).document? (outWorld settings c (toString n) document).engine
          (toString n) = document := document?_holding _ _ _
      have hstill : (sharedIndex settings).document?
          (onceWorld settings c (toString n) document first).engine (toString n) = document :=
        document?_holding _ _ _
      rw [hstart, hstill] at hdocument
      exact hdocument.symm
  tfae_finish

/-! ### A part that is deleted first -/

/-- What there is to tell of the town. -/
private def townRow : RowGroup where
  table := "data"
  rows := [⟨.insert, some 13, some 27, some (.number 8), fun _ => rfl⟩]

/-- A part of the town is deleted. -/
private def partingChange : Change where
  subject := { title := "Town" }
  subjectNumber := 13
  edits := [{ table := "parts", property := some "_SOBJ", rows :=
    [⟨.delete, some 13, some 31, some (.entity 101), fun _ => rfl⟩] }]
  rows := [townRow]

/-- The town is written once more. The part is not heard of any more. -/
private def laterChange : Change where
  subject := { title := "Town" }
  subjectNumber := 13
  rows := [townRow]

theorem covers_tfae_part :
    laterChange.subject.hash = partingChange.subject.hash ∧ laterChange.subject.IsPlain ∧
      laterChange.properties.keys.Nodup ∧
      ∃ (σ : Type) (d : Deployment σ) (E : SteadyIndex d.client (d.indexName IndexType.data))
        (before between again off back later : World σ),
        DoubleOutage d E partingChange laterChange before between again off back later ∧
          ¬AgreesWithDirect d E partingChange laterChange before later := by
  have hplain : laterChange.subject.IsPlain := by decide
  have htfae := covers_tfae {} { next := 102 } partingChange laterChange rfl hplain List.nodup_nil
  have hlost : ¬laterChange.Covers {} { next := 102 } partingChange := fun h =>
    absurd (h.replaced 101 (.inr (by decide))) (by decide)
  refine ⟨rfl, hplain, List.nodup_nil, ?_⟩
  by_contra hnone
  refine hlost ((htfae.out 0 2).mpr ?_)
  intro σ d E before between again off back later _ _ h
  by_contra hagrees
  exact hnone ⟨σ, d, E, before, between, again, off, back, later, h, hagrees⟩

end DoubleOutage

end FactIndex
