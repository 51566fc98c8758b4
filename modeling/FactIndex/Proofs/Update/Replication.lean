import FactIndex.Proofs.Cache.View
import FactIndex.Proofs.Store.Request
import FactIndex.Search.Cluster
import FactIndex.Update.Document
import FactIndex.Update.Write
import Mathlib.Logic.Function.Basic
/-!
# Writing a change

A change amounts to writes of three kinds: a document is deleted, is noted to be mentioned, or is stored
as a whole. If some of them have been done already, doing all of them comes to the same as if none had
been.

Writing a change does the writes that it amounts to, all in one request. While no index is being rebuilt
they go to the data index. If the engine is in reach all of them are done that are not refused; if it is
lost on the way some of them may have been done.

## Main definitions

* `Write`: a write to a document.
* `Write.apply`, `Write.applyAll`: what becomes of the documents.
* `Change.writes`: the writes of a change, with `Change.operations_eq` for the form in which they are sent.
* `Write.applyAll_applyAll_of_subset`: writes may be done again.
* `DataIndex`: what is known of the search engine that holds the documents.
* `World.surroundings`: what operations see of a world besides the engine.
* `World.IsFree`: no rebuild is going on.
* `DataIndex.WritesSome`: a change has been written in part.
* `Deployment.meets_replicate`, `Deployment.meets_replicate_of_isUp`: what becomes of the documents.
* `Cluster.document?_writeAll`: what becomes of the documents of the engine in memory.
* `clusterData`: the engine in memory as the keeper of the documents of an index.
-/

namespace FactIndex

/-- A write to the document under an id. -/
inductive Write where
  | delete (id : String)
  /-- The document is mentioned. It is made if it is not there. -/
  | mention (id : String)
  | store (id : String) (document : Json)
deriving DecidableEq

namespace Write

/-- The document that is written to. -/
def id : Write → String
  | .delete id | .mention id | .store id _ => id

/-- The lines that ask for a write. -/
def lines (index : String) : Write → List Json
  | .delete id => [writeLine "delete" index id]
  | .mention id => [writeLine "update" index id, Change.mentionLine]
  | .store id document => [writeLine "index" index id, document]

theorem eq_nil_of_lines {index : String} {ws : List Write} (h : ws.flatMap (lines index) = []) :
    ws = [] := by
  cases ws with
  | nil => rfl
  | cons w ws => cases w <;> cases h

/-- A document that is mentioned, and that may not have been there. -/
def mentioned (document : Option Json) : Json :=
  Cluster.update (document.getD (.obj [])) (.single "noop" (.arr []))

/-- What a write makes of the document that it is for. -/
def result (document : Option Json) : Write → Option Json
  | .delete _ => none
  | .mention _ => some (mentioned document)
  | .store _ new => some new

/-- The documents after a write. -/
def apply (documents : String → Option Json) (w : Write) : String → Option Json :=
  Function.update documents w.id (w.result (documents w.id))

/-- The documents after several writes. -/
def applyAll (documents : String → Option Json) (ws : List Write) : String → Option Json :=
  ws.foldl apply documents

/-- Whether the document after a write depends on the one before. -/
def isMention : Write → Bool
  | .mention _ => true
  | .delete _ | .store _ _ => false

variable {documents others : String → Option Json} {v w : Write}

theorem apply_self (documents : String → Option Json) (w : Write) :
    w.apply documents w.id = w.result (documents w.id) := Function.update_self ..

theorem apply_of_ne {id : String} (h : id ≠ w.id) : w.apply documents id = documents id :=
  Function.update_of_ne h ..

/-! ## Doing a write twice -/

theorem mentioned_mentioned (document : Option Json) :
    mentioned (some (mentioned document)) = mentioned document := by
  have hput : ∀ ms : Members, Table.put (Table.put ms "noop" (.arr [])) "noop" (.arr []) =
      Table.put ms "noop" (.arr []) := by
    intro ms
    induction ms with
    | nil => rfl
    | cons m ms ih =>
        by_cases hm : m.1 = "noop"
        · simp [Table.put, hm]
        · simp [Table.put, hm, ih]
  have hobject : ∀ ms : Members, Cluster.update (.obj ms) (.single "noop" (.arr [])) =
      .obj (Table.put ms "noop" (.arr [])) := fun _ => rfl
  unfold mentioned
  cases document.getD (.obj []) with
  | obj ms => rw [hobject, Option.getD_some, hobject, hput]
  | _ => rfl

theorem result_result (document : Option Json) (w : Write) :
    w.result (w.result document) = w.result document := by
  cases w with
  | mention id => exact congrArg some (mentioned_mentioned document)
  | delete id => rfl
  | store id new => rfl

theorem result_of_not_isMention (h : w.isMention = false) (a b : Option Json) :
    w.result a = w.result b := by
  cases w with
  | mention id => cases h
  | delete id => rfl
  | store id new => rfl

theorem apply_apply_self (documents : String → Option Json) (w : Write) :
    w.apply (w.apply documents) = w.apply documents := by
  funext id
  by_cases hid : id = w.id
  · rw [hid, apply_self, apply_self, result_result]
  · rw [apply_of_ne hid]

theorem apply_comm (h : v.id ≠ w.id) : v.apply (w.apply documents) = w.apply (v.apply documents) := by
  funext id
  by_cases hv : id = v.id
  · rw [hv, apply_self, apply_of_ne h, apply_of_ne h, apply_self]
  · by_cases hw : id = w.id
    · rw [hw, apply_of_ne (Ne.symm h), apply_self, apply_self, apply_of_ne (Ne.symm h)]
    · rw [apply_of_ne hv, apply_of_ne hw, apply_of_ne hw, apply_of_ne hv]

/-- Documents that differ in one only do not differ after that has been deleted or stored. -/
theorem applyAll_eq_of_mem {ws : List Write} (hmem : w ∈ ws) (hw : w.isMention = false)
    (h : ∀ id, id ≠ w.id → documents id = others id) :
    applyAll documents ws = applyAll others ws := by
  induction ws generalizing documents others with
  | nil => cases hmem
  | cons v ws ih =>
      show applyAll (v.apply documents) ws = applyAll (v.apply others) ws
      rcases List.mem_cons.mp hmem with rfl | hmem
      · congr 1
        funext id
        by_cases hid : id = w.id
        · rw [hid, apply_self, apply_self, result_of_not_isMention hw]
        · rw [apply_of_ne hid, apply_of_ne hid, h id hid]
      · refine ih hmem fun id hid => ?_
        by_cases hv : id = v.id
        · rw [hv, apply_self, apply_self, h v.id (hv ▸ hid)]
        · rw [apply_of_ne hv, apply_of_ne hv, h id hid]

/-- A write that is to come may as well have been done before. -/
theorem applyAll_apply_of_mem {ws : List Write} (hmem : w ∈ ws) :
    applyAll (w.apply documents) ws = applyAll documents ws := by
  induction ws generalizing documents with
  | nil => cases hmem
  | cons v ws ih =>
      show applyAll (v.apply (w.apply documents)) ws = applyAll (v.apply documents) ws
      by_cases hsame : v = w
      · rw [hsame, apply_apply_self]
      · have hrest : w ∈ ws := (List.mem_cons.mp hmem).resolve_left (Ne.symm hsame)
        by_cases hid : v.id = w.id
        · have hothers : ∀ id, id ≠ w.id →
              v.apply (w.apply documents) id = v.apply documents id := by
            intro id hne
            rw [apply_of_ne (hid ▸ hne), apply_of_ne hne, apply_of_ne (hid ▸ hne)]
          cases hw : w.isMention with
          | false => exact applyAll_eq_of_mem hrest hw hothers
          | true =>
              -- Two mentions of one document are the same write, so `v` deletes or stores it.
              have hv : v.isMention = false := by
                cases v with
                | delete => rfl
                | store => rfl
                | mention =>
                    cases w with
                    | delete => cases hw
                    | store => cases hw
                    | mention => exact absurd (congrArg Write.mention hid) hsame
              congr 1
              funext id
              by_cases hne : id = w.id
              · rw [hne, ← hid, apply_self, apply_self, result_of_not_isMention hv]
              · exact hothers id hne
        · rw [apply_comm hid]
          exact ih hrest

/-- By induction on what has been done: writes may be done again. -/
theorem applyAll_applyAll_of_subset {done ws : List Write} (h : done ⊆ ws) :
    applyAll (applyAll documents done) ws = applyAll documents ws := by
  induction done generalizing documents with
  | nil => rfl
  | cons w done ih =>
      have hmem : w ∈ ws := h (by simp)
      show applyAll (applyAll (w.apply documents) done) ws = _
      rw [ih (List.subset_of_cons_subset h), applyAll_apply_of_mem hmem]

end Write

/-! ## The writes of a change -/

namespace Change

/-- The writes that a change amounts to. -/
def writes (w : WriterSettings) (c : Catalog) (change : Change) : List Write :=
  let m := Mapped.ofChange w c change
  change.deletedParts.map (fun n => .delete (toString n)) ++
    m.mentioned.map (fun n => .mention (toString n)) ++
    m.documents.map fun d => .store (toString d.1) d.2.toJson

theorem operations_eq (w : WriterSettings) (c : Catalog) (change : Change) (index : String) :
    change.operations w c index = (change.writes w c).flatMap (Write.lines index) := by
  unfold operations writes
  rw [List.flatMap_append, List.flatMap_append, List.flatMap_map, List.flatMap_map,
    List.flatMap_map, List.map_eq_flatMap]
  rfl

end Change

open FactIndex.Effect

variable {σ α : Type}

/-! ## The engine -/

/-- What is known of a search engine as the keeper of documents. A bulk request does its writes in order,
save those that are refused for what they would write. One that fails may have done some of them. -/
structure DataIndex (client : SearchClient σ) (index : String) where
  /-- The document under an id. -/
  document? : σ → String → Option Json
  /-- Whether the engine is in reach. -/
  IsUp : σ → Prop
  /-- Whether a write is refused. -/
  refuses : Write → Bool
  ping : ∀ s, document? (client.send .ping s).2 = document? s
  ping_of_isUp : ∀ s, IsUp s → ∃ answer t,
    client.send .ping s = (.ok answer, t) ∧ answer.isGiven = true ∧ IsUp t
  bulk : ∀ s (ws : List Write), ∃ done, done ⊆ ws.filter (fun w => !refuses w) ∧
    document? (client.send (.bulk (ws.flatMap (Write.lines index))) s).2 =
      Write.applyAll (document? s) done
  bulk_of_isUp : ∀ s (ws : List Write), IsUp s → ∃ report t,
    client.send (.bulk (ws.flatMap (Write.lines index))) s = (.ok (.obj report), t) ∧
      document? t = Write.applyAll (document? s) (ws.filter fun w => !refuses w)

/-- The writes of a change that are not refused. -/
def DataIndex.accepted {client : SearchClient σ} {index : String} (E : DataIndex client index)
    (w : WriterSettings) (c : Catalog) (change : Change) : List Write :=
  (change.writes w c).filter fun w => !E.refuses w

/-! ## The surroundings -/

/-- What operations see of a world besides the engine. -/
def World.surroundings (d : Deployment σ) (w : World σ) : Catalog × Cache.View :=
  (w.catalog, d.cache.view .waiting (w.cache, w.host))

/-- Whether the cache can be reached. -/
def World.IsLinked (d : Deployment σ) (w : World σ) : Prop :=
  (w.surroundings d).2.isConnected = true

/-- No rebuild of the data index is going on. -/
def World.IsFree (d : Deployment σ) (w : World σ) : Prop :=
  ∀ full, d.cache.fullKey (d.lockKey IndexType.data) = .ok full →
    (w.surroundings d).2.answers full = false

variable {d : Deployment σ} {E : DataIndex d.client (d.indexName IndexType.data)} {w w' : World σ}

/-- Some of the writes of a change, and no others, have been done from one world to another. -/
def DataIndex.WritesSome (E : DataIndex d.client (d.indexName IndexType.data)) (change : Change)
    (w after : World σ) : Prop :=
  ∃ done, done ⊆ E.accepted d.settings.writer w.catalog change ∧
    E.document? after.engine = Write.applyAll (E.document? w.engine) done

theorem World.IsFree.congr (h : w.IsFree d) (heq : w'.surroundings d = w.surroundings d) :
    w'.IsFree d := by
  unfold World.IsFree
  rwa [heq]

theorem World.IsLinked.congr (h : w.IsLinked d) (heq : w'.surroundings d = w.surroundings d) :
    w'.IsLinked d := by
  unfold World.IsLinked
  rwa [heq]

theorem surroundings_asked (r : Request) : (w.asked d r).surroundings d = w.surroundings d := rfl

theorem leaves_onCache {x : Effect Cache.Site α} (h : Leaves (d.cache.view .waiting) x) :
    Leaves (World.surroundings d) (onCache x) := by
  intro w
  exact congrArg (Prod.mk w.catalog) (h (w.cache, w.host))

theorem leaves_isLocked (type : String) : Leaves (World.surroundings d) (d.isLocked type) :=
  leaves_onCache (Cache.leaves_has _ _ _)

theorem leaves_cached {view : World σ → α} {key : Json}
    (h : Leaves view (onCache (d.cache.get .waiting key))) : Leaves view (d.cached? key) := by
  refine h.attempt.bind fun r => ?_
  split
  · exact Leaves.pure _
  · exact Leaves.pure _
  · exact Leaves.throw _

theorem leaves_writeIndex {view : World σ → α} {type : String}
    (h : Leaves view (onCache (d.cache.get .waiting (d.lockKey type)))) :
    Leaves view (d.writeIndex type) :=
  ((leaves_cached h).bind fun _ => Leaves.pure _).bind fun _ => Leaves.pure _

theorem leaves_replicate (change : Change) : Leaves (World.surroundings d) (d.replicate change) :=
  (leaves_writeIndex (leaves_onCache (Cache.leaves_get _ _ _))).bind fun _ =>
    Leaves.bind (fun _ => rfl) fun _ => leaves_bulk (fun _ _ => rfl) _

namespace Deployment

/-! ## The lock -/

/-- Without a rebuild there is no lock. -/
theorem isLocked_eq (hfree : w.IsFree d) (hlink : w.IsLinked d) :
    ((d.isLocked IndexType.data).outcome w).1 = .ok false := by
  obtain ⟨full, hfull⟩ := d.cache.exists_fullKey ("lock:" ++ d.indexName IndexType.data)
  have hhas : ((d.cache.has .waiting (d.lockKey IndexType.data)).outcome (w.cache, w.host)).1 =
      .ok ((w.surroundings d).2.answers full) := Cache.has_eq hlink hfull
  exact hhas.trans (congrArg Except.ok (hfree full hfull))

/-- What is under a key of the cache is read from what is served there. -/
theorem cached_eq {key : Json} {full : String} (hlink : w.IsLinked d)
    (hfull : d.cache.fullKey key = .ok full) :
    ((d.cached? key).outcome w).1 =
      match (w.surroundings d).2.served full with
      | some content => (d.cache.readBack content).map some
      | none => .ok none := by
  have hget : ((onCache (d.cache.get .waiting key) : Action σ Json).outcome w).1 =
      match d.cache.served (w.cache, w.host) full with
      | some content => d.cache.readBack content
      | none => .error (Cache.missing key) := Cache.get_eq hlink hfull
  show _ = match d.cache.served (w.cache, w.host) full with
    | some content => (d.cache.readBack content).map some
    | none => .ok none
  unfold Deployment.cached?
  rw [outcome_bind, outcome_attempt, hget]
  cases d.cache.served (w.cache, w.host) full with
  | none => rfl
  | some content =>
      dsimp only
      rcases d.cache.readBack_cases content with ⟨value, h⟩ | h
      · rw [h]
        rfl
      · rw [h]
        rfl

/-- Without a rebuild, writes go to the data index. -/
theorem writeIndex_eq (hfree : w.IsFree d) (hlink : w.IsLinked d) :
    ((d.writeIndex IndexType.data).outcome w).1 = .ok (d.indexName IndexType.data) := by
  obtain ⟨full, hfull⟩ := d.cache.exists_fullKey ("lock:" ++ d.indexName IndexType.data)
  have hserved : (w.surroundings d).2.served full = none :=
    Cache.served_eq_none (hfree full hfull)
  have hcached : ((d.cached? (d.lockKey IndexType.data)).outcome w).1 = .ok none :=
    (cached_eq hlink hfull).trans (by rw [hserved])
  have hlock : ((d.lockOf IndexType.data).outcome w).1 = .ok .null := by
    unfold Deployment.lockOf
    rw [outcome_bind_of_answer hcached]
    rfl
  unfold Deployment.writeIndex
  rw [outcome_bind_of_answer hlock]
  rfl

theorem writeIndex_fst (type : String) : ((d.writeIndex type).outcome w).1 =
    ((d.cached? (d.lockKey type)).outcome w).1.map fun version =>
      if (version.getD .null).isGiven then d.versionName type (version.getD .null).plainText
      else d.indexName type := by
  unfold Deployment.writeIndex Deployment.lockOf
  rw [outcome_bind, outcome_bind]
  rcases (d.cached? (d.lockKey type)).outcome w with ⟨_ | _, _⟩ <;> rfl

/-- Where it is known which index is written to, the cache can be reached. -/
theorem isLinked_of_writeIndex {type index : String}
    (h : ((d.writeIndex type).outcome w).1 = .ok index) : w.IsLinked d := by
  rw [writeIndex_fst] at h
  unfold Deployment.cached? at h
  rw [outcome_bind, outcome_attempt] at h
  rcases hget : (onCache (d.cache.get .waiting (d.lockKey type)) : Action σ Json).outcome w with ⟨r, t⟩
  have hanswer : ((d.cache.get .waiting (d.lockKey type)).outcome (w.cache, w.host)).1 = r :=
    congrArg Prod.fst hget
  rw [hget] at h
  have hsaid : (∃ value, r = .ok value) ∨ ∃ text, r = .error (.notFound text) := by
    rcases r with e | value
    · cases e with
      | notFound text => exact .inr ⟨text, rfl⟩
      | _ => cases h
    · exact .inl ⟨value, rfl⟩
  rw [← hanswer] at hsaid
  exact Cache.isConnected_of_get hsaid

/-- Which index is written to is seen of the cache. -/
theorem writeIndex_congr {type index : String} (hview : w'.surroundings d = w.surroundings d)
    (h : ((d.writeIndex type).outcome w).1 = .ok index) :
    ((d.writeIndex type).outcome w').1 = .ok index := by
  have hlink := isLinked_of_writeIndex h
  obtain ⟨full, hfull⟩ : ∃ full, d.cache.fullKey (d.lockKey type) = .ok full :=
    d.cache.exists_fullKey _
  have hcached : ((d.cached? (d.lockKey type)).outcome w').1 =
      ((d.cached? (d.lockKey type)).outcome w).1 := by
    rw [cached_eq hlink hfull, cached_eq (hlink.congr hview) hfull, hview]
  rw [writeIndex_fst, hcached, ← writeIndex_fst, h]

/-! ## Writing -/

/-- Writing a change is sending its writes to the index that is written to, once the lock has been looked
at. -/
theorem outcome_replicate_of_writeIndex (change : Change) {index : String}
    (hindex : ((d.writeIndex IndexType.data).outcome w).1 = .ok index) :
    ∃ looked : World σ, looked.surroundings d = w.surroundings d ∧ looked.engine = w.engine ∧
      (d.replicate change).outcome w =
        (d.bulk ((change.writes d.settings.writer w.catalog).flatMap (Write.lines index))).outcome
          looked := by
  have hview : ((d.writeIndex IndexType.data).outcome w).2.surroundings d = w.surroundings d :=
    leaves_writeIndex (leaves_onCache (Cache.leaves_get _ _ _)) w
  have hengine : ((d.writeIndex IndexType.data).outcome w).2.engine = w.engine :=
    leaves_writeIndex (fun _ => rfl) w
  unfold Deployment.replicate
  rw [outcome_bind_of_answer hindex]
  generalize ((d.writeIndex IndexType.data).outcome w).2 = looked at hview hengine ⊢
  refine ⟨looked, hview, hengine, ?_⟩
  have hcatalog : looked.catalog = w.catalog := congrArg Prod.fst hview
  have hmap : (d.mapChange change index).outcome looked =
      (.ok ((change.writes d.settings.writer w.catalog).flatMap (Write.lines index)), looked) := by
    rw [← hcatalog, ← Change.operations_eq]
    rfl
  rw [outcome_bind_of_ok hmap]

/-- Without a rebuild the writes of a change are sent to the data index. -/
theorem outcome_replicate (change : Change) (hfree : w.IsFree d) (hlink : w.IsLinked d) :
    ∃ looked : World σ, looked.surroundings d = w.surroundings d ∧ looked.engine = w.engine ∧
      (d.replicate change).outcome w =
        (d.bulk ((change.writes d.settings.writer w.catalog).flatMap
          (Write.lines (d.indexName IndexType.data)))).outcome looked :=
  outcome_replicate_of_writeIndex change (writeIndex_eq hfree hlink)

/-- Whatever comes of it, some of the writes of a change have been done. -/
theorem meets_replicate (E : DataIndex d.client (d.indexName IndexType.data)) (change : Change)
    (hfree : w.IsFree d) (hlink : w.IsLinked d) : (d.replicate change).Meets w fun _ after =>
      E.WritesSome change w after := by
  obtain ⟨looked, -, hengine, houtcome⟩ := outcome_replicate change hfree hlink
  unfold Meets DataIndex.WritesSome
  rw [houtcome, ← hengine]
  unfold Deployment.bulk
  split
  · exact ⟨[], by simp, rfl⟩
  · rw [outcome_bind, Deployment.outcome_demand]
    obtain ⟨done, hdone, hdocuments⟩ := E.bulk looked.engine
      (change.writes d.settings.writer w.catalog)
    refine ⟨done, hdone, ?_⟩
    rw [← hdocuments]
    cases (d.client.send _ looked.engine).1 <;> simp [Except.mapError]

/-- Where the engine is in reach, all writes of a change are done that are not refused. -/
theorem meets_replicate_of_isUp (change : Change) (hfree : w.IsFree d) (hlink : w.IsLinked d)
    (hup : E.IsUp w.engine) : (d.replicate change).Meets w fun r after => (∃ report, r = .ok report) ∧
      E.document? after.engine = Write.applyAll (E.document? w.engine)
        (E.accepted d.settings.writer w.catalog change) := by
  obtain ⟨looked, -, hengine, houtcome⟩ := outcome_replicate change hfree hlink
  unfold Meets
  rw [houtcome]
  rw [← hengine] at hup ⊢
  unfold Deployment.bulk
  split
  · rename_i hempty
    have hnone : change.writes d.settings.writer w.catalog = [] :=
      Write.eq_nil_of_lines (List.isEmpty_iff.mp hempty)
    refine ⟨⟨_, rfl⟩, ?_⟩
    rw [DataIndex.accepted, hnone]
    rfl
  · obtain ⟨report, after, hsend, hdocuments⟩ := E.bulk_of_isUp looked.engine
      (change.writes d.settings.writer w.catalog) hup
    have hdemand := d.outcome_demand (.bulk ((change.writes d.settings.writer w.catalog).flatMap
      (Write.lines (d.indexName IndexType.data)))) looked
    rw [hsend] at hdemand
    rw [outcome_bind_of_ok hdemand, outcome_ofExcept]
    refine ⟨⟨report, rfl⟩, ?_⟩
    rw [World.asked_engine, hsend]
    exact hdocuments

end Deployment

/-! ## The engine in memory

It does the writes of a bulk request in order, save those to documents that refuse to be written. A request
that fails does none of them. -/

namespace Cluster

variable {index : String}

theorem document?_store (c : Cluster) (id : String) (document : Json) :
    (c.store index id document).document? index =
      Function.update (c.document? index) id (some document) := by
  funext other
  by_cases h : other = id
  · subst h
    rw [document?_store_self, Function.update_self]
  · rw [c.document?_store_of_ne index id other document (Ne.symm h), Function.update_of_ne h]

theorem document?_delete (c : Cluster) (id : String) :
    (c.delete index id).document? index = Function.update (c.document? index) id none := by
  funext other
  unfold document? delete
  rw [documents_setDocuments_self]
  by_cases h : other = id
  · subst h
    rw [Table.get?_erase_self, Function.update_self]
  · rw [Table.get?_erase_of_ne _ (Ne.symm h), Function.update_of_ne h]

/-- The engine after a write that it takes. -/
def write (c : Cluster) (index : String) : Write → Cluster
  | .delete id => c.delete index id
  | .mention id => c.updateDocument index id Change.mentionLine
  | .store id document => c.store index id document

theorem document?_write (c : Cluster) (w : Write) :
    (c.write index w).document? index = w.apply (c.document? index) := by
  cases w with
  | delete id => exact c.document?_delete id
  | mention id => exact c.document?_store id _
  | store id document => exact c.document?_store id document

theorem refused_write (c : Cluster) (w : Write) : (c.write index w).refused = c.refused := by
  cases w <;> rfl

/-- The lines of a write are taken together, and those that follow are taken after it. -/
theorem writeAll_lines (c : Cluster) (w : Write) (rest : List Json) :
    (c.writeAll (w.lines index ++ rest)).2 =
      ((if c.refused.contains w.id then c else c.write index w).writeAll rest).2 := by
  have hpair : ∀ (isRefused : Bool) (a b : Json) (taken : Cluster),
      (if isRefused then (a, c) else (b, taken)).2 = if isRefused then c else taken := by
    intro isRefused a b taken
    cases isRefused <;> rfl
  cases w with
  | delete id =>
      have hstep : (c.writeAll (writeLine "delete" index id :: rest)).2 =
          ((if c.refused.contains id then (refusal "delete" id, c)
            else (report "delete" id (if (c.documents index).has id then 200 else 404),
              c.delete index id)).2.writeAll rest).2 := by
        cases rest with
        | nil => rfl
        | cons _ _ => rfl
      rw [hpair] at hstep
      exact hstep
  | mention id =>
      have hstep : (c.writeAll (writeLine "update" index id :: Change.mentionLine :: rest)).2 =
          ((if c.refused.contains id then (refusal "update" id, c)
            else (report "update" id 200, c.updateDocument index id Change.mentionLine)).2.writeAll
              rest).2 := rfl
      rw [hpair] at hstep
      exact hstep
  | store id document =>
      have hstep : (c.writeAll (writeLine "index" index id :: document :: rest)).2 =
          ((if c.refused.contains id then (refusal "index" id, c)
            else (report "index" id 200, c.store index id document)).2.writeAll rest).2 := rfl
      rw [hpair] at hstep
      exact hstep

/-- A bulk request does its writes in order, save those that are refused. -/
theorem document?_writeAll (c : Cluster) (ws : List Write) :
    (c.writeAll (ws.flatMap (Write.lines index))).2.document? index =
      Write.applyAll (c.document? index) (ws.filter fun w => !c.refused.contains w.id) := by
  induction ws generalizing c with
  | nil => rfl
  | cons w ws ih =>
      rw [List.flatMap_cons, writeAll_lines, ih]
      cases hrefused : c.refused.contains w.id with
      | true =>
          rw [if_pos rfl, List.filter_cons_of_neg (by rw [hrefused]; decide)]
      | false =>
          rw [if_neg Bool.false_ne_true, List.filter_cons_of_pos (by rw [hrefused]; rfl),
            refused_write, document?_write]
          rfl

/-- An engine that is available and has no errors laid out does what it is asked for. -/
theorem answer_eq_perform {c : Cluster} (havailable : c.isAvailable = true) (herrors : c.errors = [])
    (r : Request) : c.answer r = c.perform r := by
  unfold answer
  rw [herrors]
  exact if_pos (.inl havailable)

end Cluster

/-- The engine in memory as the keeper of the documents of an index. It is in reach if it is available
and no error has been laid out, and nothing is refused then. -/
def clusterData (index : String) : DataIndex Cluster.client index where
  document? c := c.document? index
  IsUp c := c.isAvailable = true ∧ c.errors = [] ∧ c.refused = []
  refuses _ := false
  ping c := congrFun (c.document?_answer_of_not_isWrite rfl) index
  ping_of_isUp := by
    rintro c ⟨havailable, herrors, hrefused⟩
    exact ⟨_, c, c.answer_eq_perform havailable herrors .ping, havailable, havailable, herrors, hrefused⟩
  bulk c ws := by
    have hall : ws.filter (fun _ => !false) = ws := List.filter_eq_self.mpr fun _ _ => rfl
    rw [hall]
    show ∃ done, done ⊆ ws ∧ (c.answer _).2.document? index = _
    unfold Cluster.answer
    split
    · exact ⟨[], by simp, rfl⟩
    · split
      · exact ⟨_, List.filter_sublist.subset, c.document?_writeAll ws⟩
      · exact ⟨[], by simp, rfl⟩
  bulk_of_isUp := by
    rintro c ws ⟨havailable, herrors, hrefused⟩
    have hwritten := @Cluster.document?_writeAll index c ws
    rw [hrefused] at hwritten
    exact ⟨_, _, c.answer_eq_perform havailable herrors _, hwritten⟩

end FactIndex
