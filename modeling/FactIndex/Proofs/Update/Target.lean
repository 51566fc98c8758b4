import FactIndex.Proofs.Update.Creation
import FactIndex.Proofs.Update.Decided
import FactIndex.Proofs.Update.Exact

/-!
# Where plain writes go

While a rebuild is going on there are two generations of the data index: the one behind the alias, which is
searched, and the one that is being built. Writing a change looks at the lock and goes to the one that is
being built. Writing an entity and deleting documents do not look at it: they go to the alias, so they
change the generation that is searched and never reach the one that will take its place.

## Main definitions

* `Write.placeAll`: what becomes of the documents of all indices.
* `WriteStore`, `clusterWrites`: a search engine that does writes to several indices in order.
* `WriteCall.writes`, `WriteCall.listWrites`: what a plain write does to documents and to lists.
* `WriteCall.target`: the index that it is sent to.
* `WriteCall.write_lands`: what becomes of every index.
-/

namespace FactIndex

open FactIndex.Digest FactIndex.Effect

variable {σ : Type}

/-! ## Writes to several indices -/

namespace Write

variable {resolve : String → String} {documents : String → String → Option Json} {place : String}

/-- The documents of all indices after a write to one of them, which is given by a name. -/
def applyAt (resolve : String → String) (documents : String → String → Option Json)
    (named : String × Write) : String → String → Option Json :=
  Function.update documents (resolve named.1) (named.2.apply (documents (resolve named.1)))

/-- The documents of all indices after several writes. -/
def placeAll (resolve : String → String) (documents : String → String → Option Json)
    (ws : List (String × Write)) : String → String → Option Json :=
  ws.foldl (applyAt resolve) documents

theorem placeAll_cons (named : String × Write) (ws : List (String × Write)) :
    placeAll resolve documents (named :: ws) =
      placeAll resolve (applyAt resolve documents named) ws := rfl

/-- The writes that an index sees. -/
def seenAt (resolve : String → String) (place : String) (ws : List (String × Write)) : List Write :=
  (ws.filter fun named => resolve named.1 = place).map Prod.snd

theorem seenAt_cons (named : String × Write) (ws : List (String × Write)) :
    seenAt resolve place (named :: ws) =
      (if resolve named.1 = place then [named.2] else []) ++ seenAt resolve place ws := by
  unfold seenAt
  rw [List.filter_cons]
  by_cases hplace : resolve named.1 = place
  · rw [if_pos hplace, if_pos (decide_eq_true hplace)]
    rfl
  · rw [if_neg hplace, if_neg (by simpa using hplace)]
    rfl

/-- Writes that are all for one index are seen by that index only. -/
theorem seenAt_named (name : String) (ws : List Write) :
    seenAt resolve place (ws.map fun w => (name, w)) = if resolve name = place then ws else [] := by
  induction ws with
  | nil => exact (ite_self []).symm
  | cons w ws ih =>
      rw [List.map_cons, seenAt_cons, ih]
      split <;> rfl

theorem seenAt_flatMap {α : Type} (f : α → List (String × Write)) (as : List α) :
    seenAt resolve place (as.flatMap f) = as.flatMap fun a => seenAt resolve place (f a) := by
  unfold seenAt
  rw [List.filter_flatMap, List.map_flatMap]

/-- By induction on the writes: an index changes by those that it sees, in their order. -/
theorem placeAll_apply (ws : List (String × Write)) : placeAll resolve documents ws place =
    applyAll (documents place) (seenAt resolve place ws) := by
  induction ws generalizing documents with
  | nil => rfl
  | cons named ws ih =>
      rw [placeAll_cons, ih, seenAt_cons]
      unfold applyAt
      by_cases hplace : resolve named.1 = place
      · subst hplace
        rw [Function.update_self, if_pos rfl]
        rfl
      · rw [Function.update_of_ne (Ne.symm hplace), if_neg hplace]
        rfl

end Write

/-- What is known of a search engine that stores documents and does the writes of a bulk request in order,
whatever indices they are for. The documents of an index are the same under each of its names. -/
structure WriteStore (client : SearchClient σ) where
  /-- The documents of each index. -/
  documents : σ → String → String → Option Json
  /-- The index that a name stands for. -/
  resolve : σ → String → String
  /-- Whether the engine is in reach and refuses nothing. -/
  IsUp : σ → Prop
  store_of_isUp : ∀ s name id document, IsUp s → ∃ answer t,
    client.send (.store name id document) s = (.ok answer, t) ∧ IsUp t ∧ resolve t = resolve s ∧
      documents t = Write.applyAt (resolve s) (documents s) (name, .store id document)
  bulk_of_isUp : ∀ s (ws : List (String × Write)), IsUp s → ∃ report t,
    client.send (.bulk (ws.flatMap fun named => named.2.lines named.1)) s = (.ok (.obj report), t) ∧
      IsUp t ∧ resolve t = resolve s ∧ documents t = Write.placeAll (resolve s) (documents s) ws

namespace Cluster

/-- A write that is taken is seen by the index that its name stands for. -/
theorem placed_write (c : Cluster) (index : String) (w : Write) :
    (c.write index w).placed = Write.applyAt c.resolve c.placed (index, w) := by
  funext place
  unfold Write.applyAt
  by_cases hplace : place = c.resolve index
  · subst hplace
    obtain ⟨docs, hwrite⟩ := c.exists_write_eq index w
    have hresolve : (c.write index w).resolve index = c.resolve index := by
      rw [hwrite]
      rfl
    rw [Function.update_self, ← hresolve]
    exact (c.document?_write w).trans (by rw [hresolve]; rfl)
  · obtain ⟨docs, hwrite⟩ := c.exists_write_eq index w
    rw [Function.update_of_ne hplace, hwrite]
    funext id
    unfold placed setDocuments
    rw [Table.get?_put_of_ne _ _ (Ne.symm hplace)]

/-- A bulk request of which nothing is refused does its writes in order. -/
theorem exists_writeAll_placed (c : Cluster) (hrefused : c.refused = []) (ws : List (String × Write)) :
    ∃ indices, (c.writeAll (ws.flatMap fun named => named.2.lines named.1)).2 = { c with indices } ∧
      placed { c with indices } = Write.placeAll c.resolve c.placed ws := by
  induction ws generalizing c with
  | nil => exact ⟨c.indices, rfl, rfl⟩
  | cons named ws ih =>
      obtain ⟨docs, hwrite⟩ := c.exists_write_eq named.1 named.2
      obtain ⟨indices, hall, hplaced⟩ := ih (c.write named.1 named.2) (by rw [refused_write, hrefused])
      rw [placed_write] at hplaced
      rw [hwrite] at hall hplaced
      refine ⟨indices, ?_, hplaced⟩
      have htaken : (if c.refused.contains named.2.id then c else c.write named.1 named.2) =
          c.setDocuments named.1 docs := by
        rw [hrefused, hwrite]
        rfl
      rw [List.flatMap_cons, writeAll_lines, htaken]
      exact hall

end Cluster

/-- The engine in memory does writes to several indices in order, if it is available, no error has been
laid out and nothing is refused. -/
def clusterWrites : WriteStore Cluster.client where
  documents := Cluster.placed
  resolve := Cluster.resolve
  IsUp c := c.isAvailable = true ∧ c.errors = [] ∧ c.refused = []
  store_of_isUp := by
    rintro c name id document ⟨havailable, herrors, hrefused⟩
    exact ⟨_, _, c.answer_eq_perform havailable herrors _, ⟨havailable, herrors, hrefused⟩, rfl,
      c.placed_write name (.store id document)⟩
  bulk_of_isUp := by
    rintro c ws ⟨havailable, herrors, hrefused⟩
    obtain ⟨indices, hall, hplaced⟩ := c.exists_writeAll_placed hrefused ws
    refine ⟨_, _, c.answer_eq_perform havailable herrors _, ?_, ?_, ?_⟩
    · show Cluster.isAvailable (c.writeAll _).2 = true ∧ _ = [] ∧ _ = []
      rw [hall]
      exact ⟨havailable, herrors, hrefused⟩
    · show Cluster.resolve (c.writeAll _).2 = _
      rw [hall]
      rfl
    · show Cluster.placed (c.writeAll _).2 = _
      rw [hall]
      exact hplaced

/-! ## Plain writes -/

namespace WriteCall

/-- What a plain write does to the documents of the data index. -/
def writes (d : Deployment σ) (w : World σ) : WriteCall → List Write
  | .create e => [.store (w.idOf e) e.bareDocument]
  | .delete ids _ => ids.map fun n => .delete (toString n)
  | .replicate change => change.writes d.settings.writer w.catalog

/-- What it does to the lists of members: that of a concept is deleted with the concept. -/
def listWrites : WriteCall → List Write
  | .delete ids true => ids.map fun n => .delete (plainHash (.int n))
  | .create _ | .delete _ false | .replicate _ => []

/-- Whether a plain write looks at the lock. -/
def followsLock : WriteCall → Bool
  | .replicate _ => true
  | .create _ | .delete _ _ => false

/-- The index that a plain write is sent to under a lock: the generation that is being built, if the write
looks at the lock and the lock names one, or else the alias. -/
def target (d : Deployment σ) (version : Json) (c : WriteCall) : String :=
  if c.followsLock && version.isGiven then d.versionName IndexType.data version.plainText
  else d.indexName IndexType.data

theorem target_of_followsLock {d : Deployment σ} {version : Json} {c : WriteCall}
    (h : c.followsLock = true) (hgiven : version.isGiven = true) :
    c.target d version = d.versionName IndexType.data version.plainText := by
  unfold target
  rw [h, hgiven]
  rfl

theorem target_of_not_followsLock {d : Deployment σ} {version : Json} {c : WriteCall}
    (h : c.followsLock = false) : c.target d version = d.indexName IndexType.data := by
  unfold target
  rw [h]
  rfl

/-- What the deletion of one document does. The list of members of a concept goes with it. -/
def deletionOf (d : Deployment σ) (isConcept : Bool) (n : Int) : List (String × Write) :=
  (d.indexName IndexType.data, .delete (toString n)) ::
    if isConcept then [(d.indexName IndexType.lookup, .delete (plainHash (.int n)))] else []

/-- All that a plain write does, each write with the name of the index that it is for. -/
def named (d : Deployment σ) (w : World σ) (version : Json) : WriteCall → List (String × Write)
  | .delete ids isConcept => ids.flatMap (deletionOf d isConcept)
  | c => (c.writes d w).map fun v => (c.target d version, v)

variable {d : Deployment σ} {w : World σ} {version : Json} {resolve : String → String}
  {place : String}

theorem seenAt_deletionOf (isConcept : Bool) (n : Int) :
    Write.seenAt resolve place (deletionOf d isConcept n) =
      (if resolve (d.indexName IndexType.data) = place then [.delete (toString n)] else []) ++
        if isConcept ∧ resolve (d.indexName IndexType.lookup) = place
          then [.delete (plainHash (.int n))] else [] := by
  unfold deletionOf
  rw [Write.seenAt_cons]
  cases isConcept with
  | false => rfl
  | true =>
      rw [if_pos rfl, Write.seenAt_cons]
      simp only [true_and]
      exact congrArg _ (List.append_nil _)

/-- An index that does not hold the lists sees what is done to documents, if it is the one that the write is
sent to. -/
theorem seenAt_named_of_ne (c : WriteCall) (hplace : resolve (d.indexName IndexType.lookup) ≠ place) :
    Write.seenAt resolve place (c.named d w version) =
      if resolve (c.target d version) = place then c.writes d w else [] := by
  cases c with
  | create e => exact Write.seenAt_named _ _
  | replicate change => exact Write.seenAt_named _ _
  | delete ids isConcept =>
      have hone : ∀ n : Int, Write.seenAt resolve place (deletionOf d isConcept n) =
          if resolve (d.indexName IndexType.data) = place then [.delete (toString n)] else [] := by
        intro n
        have hlists : ¬(isConcept = true ∧ resolve (d.indexName IndexType.lookup) = place) :=
          fun h => hplace h.2
        rw [seenAt_deletionOf, if_neg hlists, List.append_nil]
      show Write.seenAt resolve place (ids.flatMap _) =
        if resolve (d.indexName IndexType.data) = place then ids.map _ else []
      rw [Write.seenAt_flatMap, List.flatMap_congr fun n _ => hone n]
      split
      · exact List.map_eq_flatMap.symm
      · exact List.flatMap_eq_nil_iff.mpr fun _ _ => rfl

/-- The index with the lists sees what is done to lists, if it is not the one that the write is sent to. -/
theorem seenAt_named_lists (c : WriteCall)
    (htarget : resolve (c.target d version) ≠ resolve (d.indexName IndexType.lookup)) :
    Write.seenAt resolve (resolve (d.indexName IndexType.lookup)) (c.named d w version) =
      c.listWrites := by
  cases c with
  | create e => exact (Write.seenAt_named _ _).trans (if_neg htarget)
  | replicate change => exact (Write.seenAt_named _ _).trans (if_neg htarget)
  | delete ids isConcept =>
      have hone : ∀ n : Int, Write.seenAt resolve (resolve (d.indexName IndexType.lookup))
          (deletionOf d isConcept n) = if isConcept then [.delete (plainHash (.int n))] else [] := by
        intro n
        have hdata : resolve (d.indexName IndexType.data) ≠
            resolve (d.indexName IndexType.lookup) := htarget
        rw [seenAt_deletionOf, if_neg hdata]
        simp only [and_true, List.nil_append]
      show Write.seenAt resolve _ (ids.flatMap _) = _
      rw [Write.seenAt_flatMap, List.flatMap_congr fun n _ => hone n]
      cases isConcept with
      | false => exact List.flatMap_eq_nil_iff.mpr fun _ _ => rfl
      | true => exact List.map_eq_flatMap.symm

end WriteCall

namespace Deployment

variable {d : Deployment σ} {w : World σ} {version : Json}

/-- A bulk request does its writes. Without any it is not sent, and nothing changes. -/
theorem bulk_placed (S : WriteStore d.client) (ws : List (String × Write)) (hup : S.IsUp w.engine) :
    ∃ report after, (d.bulk (ws.flatMap fun named => named.2.lines named.1)).outcome w =
        (.ok report, after) ∧ S.resolve after.engine = S.resolve w.engine ∧ S.documents after.engine =
          Write.placeAll (S.resolve w.engine) (S.documents w.engine) ws := by
  unfold Deployment.bulk
  split
  · rename_i hempty
    have hnone : ws = [] := by
      cases ws with
      | nil => rfl
      | cons named ws => cases h : named.2 <;> simp [Write.lines, h] at hempty
    rw [hnone]
    exact ⟨_, w, rfl, rfl, rfl⟩
  · obtain ⟨report, t, hsend, -, hresolve, hdocuments⟩ := S.bulk_of_isUp w.engine ws hup
    have hdemand := d.outcome_demand (.bulk (ws.flatMap fun named => named.2.lines named.1)) w
    rw [hsend] at hdemand
    rw [outcome_bind_of_ok hdemand, outcome_ofExcept]
    refine ⟨report, _, rfl, ?_⟩
    rw [World.asked_engine, hsend]
    exact ⟨hresolve, hdocuments⟩

/-- Which index a change is written to is decided by the lock. -/
theorem writeIndex_of_lock (change : Change)
    (hlock : ((d.lockOf IndexType.data).outcome w).1 = .ok version) :
    ((d.writeIndex IndexType.data).outcome w).1 =
      .ok ((WriteCall.replicate change).target d version) := by
  unfold Deployment.writeIndex
  rw [outcome_bind_of_answer hlock]
  rfl

end Deployment

namespace WriteCall

variable {d : Deployment σ} {w : World σ} {version : Json}

/-- Deleting documents succeeds, whether there is a lock or not. -/
theorem delete_placed (S : WriteStore d.client) (ids : List Int) (isConcept : Bool)
    (hup : S.IsUp w.engine) : ∃ after, ((WriteCall.delete ids isConcept).write d).outcome w = (.ok (), after) ∧
      S.resolve after.engine = S.resolve w.engine ∧ S.documents after.engine =
        Write.placeAll (S.resolve w.engine) (S.documents w.engine)
          (ids.flatMap (deletionOf d isConcept)) := by
  obtain ⟨report, after, hbulk, hrest⟩ :=
    Deployment.bulk_placed S (ids.flatMap (deletionOf d isConcept)) hup
  refine ⟨after, ?_, hrest⟩
  have hlines : (ids.map Json.int).flatMap (d.deleteLines isConcept) =
      (ids.flatMap (deletionOf d isConcept)).flatMap fun named => named.2.lines named.1 := by
    rw [List.flatMap_map, List.flatMap_assoc]
    refine List.flatMap_congr fun n _ => ?_
    cases isConcept <;> rfl
  show (d.deleteDocuments (ids.map Json.int) isConcept).outcome w = _
  unfold Deployment.deleteDocuments
  rw [hlines, outcome_bind_of_ok hbulk]
  rfl

/-- A plain write succeeds and does its writes in the indices that it names. -/
theorem write_placed (S : WriteStore d.client) (c : WriteCall) (hup : S.IsUp w.engine)
    (hlock : ((d.lockOf IndexType.data).outcome w).1 = .ok version) :
    ∃ after, (c.write d).outcome w = (.ok (), after) ∧ S.documents after.engine =
      Write.placeAll (S.resolve w.engine) (S.documents w.engine) (c.named d w version) := by
  cases c with
  | create e =>
      obtain ⟨answer, t, hsend, -, -, hdocuments⟩ :=
        S.store_of_isUp w.engine (d.indexName IndexType.data) (w.idOf e) e.bareDocument hup
      show ∃ after, (d.indexEntity e).outcome w = (.ok (), after) ∧ _
      rw [Deployment.outcome_indexEntity, hsend]
      refine ⟨_, rfl, ?_⟩
      rw [World.asked_engine]
      simp only [hsend]
      exact hdocuments
  | delete ids isConcept =>
      obtain ⟨after, hdone, -, hdocuments⟩ := delete_placed S ids isConcept hup
      exact ⟨after, hdone, hdocuments⟩
  | replicate change =>
      obtain ⟨looked, -, hengine, houtcome⟩ :=
        Deployment.outcome_replicate_of_writeIndex change (Deployment.writeIndex_of_lock change hlock)
      rw [← hengine] at hup
      obtain ⟨report, after, hbulk, -, hdocuments⟩ := Deployment.bulk_placed (w := looked) S
        ((WriteCall.replicate change).named d w version) hup
      refine ⟨after, ?_, by rw [hdocuments, hengine]⟩
      have hlines : ((WriteCall.replicate change).named d w version).flatMap
          (fun named => named.2.lines named.1) = (change.writes d.settings.writer w.catalog).flatMap
            (Write.lines ((WriteCall.replicate change).target d version)) :=
        List.flatMap_map ..
      rw [hlines, ← houtcome] at hbulk
      show (d.replicate change >>= fun _ => pure ()).outcome w = _
      rw [outcome_bind_of_ok hbulk]
      rfl

/-- A plain write changes one index of documents, and does there what it is to do. Under a lock that is the
generation that is being built if the write looks at the lock, and the one that is searched if not; the
other one stays as it was. So under a lock the one that is searched stays as it was if and only if the
write looks at the lock or has nothing to change there. -/
theorem write_lands (S : WriteStore d.client) (c : WriteCall) (hup : S.IsUp w.engine)
    (hlock : ((d.lockOf IndexType.data).outcome w).1 = .ok version) :
    ∃ after, (c.write d).outcome w = (.ok (), after) ∧
      (∀ place, place ≠ S.resolve w.engine (d.indexName IndexType.lookup) →
        S.documents after.engine place =
          if place = S.resolve w.engine (c.target d version) then
            Write.applyAll (S.documents w.engine place) (c.writes d w)
          else S.documents w.engine place) ∧
      (S.resolve w.engine (c.target d version) ≠ S.resolve w.engine (d.indexName IndexType.lookup) →
        S.documents after.engine (S.resolve w.engine (d.indexName IndexType.lookup)) =
          Write.applyAll (S.documents w.engine (S.resolve w.engine (d.indexName IndexType.lookup)))
            c.listWrites) ∧
      (version.isGiven = true → ∀ live, S.resolve w.engine (d.indexName IndexType.data) = live →
        live ≠ S.resolve w.engine (d.versionName IndexType.data version.plainText) →
        live ≠ S.resolve w.engine (d.indexName IndexType.lookup) →
          (S.documents after.engine live = S.documents w.engine live ↔ c.followsLock = true ∨
            Write.applyAll (S.documents w.engine live) (c.writes d w) =
              S.documents w.engine live)) := by
  obtain ⟨after, hdone, hplaced⟩ := c.write_placed S hup hlock
  have hothers : ∀ place, place ≠ S.resolve w.engine (d.indexName IndexType.lookup) →
      S.documents after.engine place = if place = S.resolve w.engine (c.target d version) then
        Write.applyAll (S.documents w.engine place) (c.writes d w)
      else S.documents w.engine place := by
    intro place hplace
    rw [hplaced, Write.placeAll_apply, seenAt_named_of_ne c hplace.symm]
    by_cases htarget : place = S.resolve w.engine (c.target d version)
    · rw [if_pos htarget, if_pos htarget.symm]
    · rw [if_neg htarget, if_neg (Ne.symm htarget)]
      rfl
  refine ⟨after, hdone, hothers, fun htarget => ?_, fun hgiven live hlive hbuilt hlists => ?_⟩
  · rw [hplaced, Write.placeAll_apply, seenAt_named_lists c htarget]
  · rw [hothers live hlists]
    cases hfollows : c.followsLock with
    | true =>
        rw [target_of_followsLock hfollows hgiven, if_neg hbuilt]
        exact ⟨fun _ => .inl rfl, fun _ => rfl⟩
    | false =>
        rw [target_of_not_followsLock hfollows, if_pos hlive.symm]
        simp only [Bool.false_eq_true, false_or]

/-! ### A part that is gone, during a rebuild -/

private def splitDeployment : Deployment Cluster where
  client := Cluster.client
  cache := {}
  queue := {}

/-- The generation that is searched. -/
private def liveIndex : String := splitDeployment.versionName IndexType.data "v1"

/-- The generation that is being built. -/
private def builtIndex : String := splitDeployment.versionName IndexType.data "v2"

/-- The document of the part. -/
private def partDocument : Json := .single "subject" (.str "Part")

/-- Both generations have the document of the part, and there is a lock. -/
private def splitWorld : World Cluster :=
  ((splitDeployment.setLock IndexType.data (.str "v2")).outcome {
    engine := {
      indices := [(liveIndex, [("7", partDocument)]), (builtIndex, [("7", partDocument)])]
      aliases := [(splitDeployment.indexName IndexType.data, [liveIndex])] }
    catalog := { next := 8, entities := [(7, { title := "Town", subobject := "_part" })] } }).2

/-- A change that deletes the part. -/
private def partChange : Change where
  subject := { title := "Town" }
  subjectNumber := 1
  edits := [{ table := "parts", property := some "_SOBJ", rows :=
    [⟨.delete, some 1, some 30, some (.entity 7), fun _ => rfl⟩] }]

private def splitWrites : WriteStore splitDeployment.client := clusterWrites

/-- The alias stands for the generation that is searched, and none of the two holds the lists. -/
private theorem resolve_splitWorld :
    splitWrites.resolve splitWorld.engine (splitDeployment.indexName IndexType.data) = liveIndex ∧
      splitWrites.resolve splitWorld.engine builtIndex = builtIndex ∧
      ∀ place ∈ [liveIndex, builtIndex],
        place ≠ splitWrites.resolve splitWorld.engine (splitDeployment.indexName IndexType.lookup) := by
  have hlists : splitWrites.resolve splitWorld.engine (splitDeployment.indexName IndexType.lookup) =
      splitDeployment.indexName IndexType.lookup := Cluster.resolve_of_get?_eq_none rfl
  refine ⟨?_, Cluster.resolve_of_get?_eq_none rfl, ?_⟩
  · show (List.mergeSort [liveIndex] _).head?.getD _ = _
    rw [List.mergeSort_singleton]
    rfl
  · rw [hlists]
    decide +kernel

/-- Deleting the part deletes its document where it is searched, and the generation that is being built keeps
it. With a change that deletes the part it is the other way round. -/
theorem write_lands_part : splitWrites.IsUp splitWorld.engine ∧
    ((splitDeployment.lockOf IndexType.data).outcome splitWorld).1 = .ok (.str "v2") ∧
    (∃ after, ((WriteCall.delete [7] false).write splitDeployment).outcome splitWorld =
        (.ok (), after) ∧ splitWrites.documents after.engine liveIndex "7" = none ∧
      splitWrites.documents after.engine builtIndex "7" = some partDocument) ∧
    ∃ after, ((WriteCall.replicate partChange).write splitDeployment).outcome splitWorld =
        (.ok (), after) ∧ splitWrites.documents after.engine liveIndex "7" = some partDocument ∧
      splitWrites.documents after.engine builtIndex "7" = none := by
  have hup : splitWrites.IsUp splitWorld.engine := ⟨rfl, rfl, rfl⟩
  have hlock : ((splitDeployment.lockOf IndexType.data).outcome splitWorld).1 = .ok (.str "v2") := rfl
  obtain ⟨hlive, hbuilt, hlists⟩ := resolve_splitWorld
  have hapart : liveIndex ≠ builtIndex := by decide +kernel
  refine ⟨hup, hlock, ?_, ?_⟩
  · obtain ⟨after, hdone, hothers, -, -⟩ := write_lands splitWrites (.delete [7] false) hup hlock
    rw [target_of_not_followsLock rfl, hlive] at hothers
    have hgone := hothers liveIndex (hlists _ (by simp))
    have hkept := hothers builtIndex (hlists _ (by simp))
    rw [if_pos rfl] at hgone
    rw [if_neg hapart.symm] at hkept
    exact ⟨after, hdone, congrFun hgone "7", congrFun hkept "7"⟩
  · obtain ⟨after, hdone, hothers, -, -⟩ :=
      write_lands splitWrites (.replicate partChange) hup hlock
    have htarget : (WriteCall.replicate partChange).target splitDeployment (.str "v2") = builtIndex :=
      target_of_followsLock rfl rfl
    rw [htarget, hbuilt] at hothers
    have hkept := hothers liveIndex (hlists _ (by simp))
    have hgone := hothers builtIndex (hlists _ (by simp))
    rw [if_neg hapart] at hkept
    rw [if_pos rfl] at hgone
    exact ⟨after, hdone, congrFun hkept "7", congrFun hgone "7"⟩

end WriteCall

end FactIndex
