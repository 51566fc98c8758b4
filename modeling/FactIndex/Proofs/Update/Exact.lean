import FactIndex.Proofs.Update.Replication

/-!
# What becomes of every document

A change deletes parts, mentions entities and stores documents, and one entity may be among all three.
Since deletions come first and whole documents last, what becomes of a document does not depend on
anything else: it is the one that the change makes, or else the old one with the mention, or else it is
gone. All others stay. So writing a change once more changes nothing.

## Main definitions

* `Change.IsWritten`: what is to become of the documents, in terms of those that there were.
* `Change.isWritten_applyAll`: the writes of a change do that.
* `BulkStore`, `clusterStore`: a search engine that does the writes of a bulk request in order.
* `Deployment.replicate_effect`: so does writing a change, to whatever index it is written.
-/

namespace FactIndex

open FactIndex.Effect

/-! ## Writes of one kind -/

namespace Write

variable {documents : String → Option Json} {numbers : List Int} {id : String}

theorem applyAll_append (documents : String → Option Json) (vs ws : List Write) :
    applyAll documents (vs ++ ws) = applyAll (applyAll documents vs) ws := List.foldl_append

theorem applyAll_cons (documents : String → Option Json) (w : Write) (ws : List Write) :
    applyAll documents (w :: ws) = applyAll (w.apply documents) ws := rfl

/-- Documents that are not written to stay. -/
theorem applyAll_of_forall_ne {ws : List Write} (h : ∀ w ∈ ws, w.id ≠ id) :
    applyAll documents ws id = documents id := by
  induction ws generalizing documents with
  | nil => rfl
  | cons w ws ih =>
      rw [applyAll_cons, ih fun v hv => h v (List.mem_cons_of_mem w hv),
        apply_of_ne (Ne.symm (h w List.mem_cons_self))]

/-- After deletions a document is gone if it is among them. -/
theorem applyAll_deletions (documents : String → Option Json) (ids : List String) (id : String) :
    applyAll documents (ids.map .delete) id = if id ∈ ids then none else documents id := by
  induction ids generalizing documents with
  | nil => simp [applyAll]
  | cons other ids ih =>
      rw [List.map_cons, applyAll_cons, ih]
      by_cases hid : id = other
      · subst hid
        have hgone : (Write.delete id).apply documents id = none := apply_self ..
        rw [hgone, ite_self, if_pos List.mem_cons_self]
      · have hstays : (Write.delete other).apply documents id = documents id := apply_of_ne hid
        simp only [hstays, List.mem_cons, hid, false_or]

theorem applyAll_deletes (documents : String → Option Json) (numbers : List Int) (n : Int) :
    applyAll documents (numbers.map fun m => .delete (toString m)) (toString n) =
      if n ∈ numbers then none else documents (toString n) := by
  have h := applyAll_deletions documents (numbers.map toString) (toString n)
  rw [List.map_map] at h
  simp only [List.mem_map, Decimal.toString_injective.eq_iff, exists_eq_right] at h
  exact h

/-- After mentions a document has the mention if it is among them, however often. -/
theorem applyAll_mentions (documents : String → Option Json) (numbers : List Int) (n : Int) :
    applyAll documents (numbers.map fun m => .mention (toString m)) (toString n) =
      if n ∈ numbers then some (mentioned (documents (toString n))) else documents (toString n) := by
  induction numbers generalizing documents with
  | nil => simp [applyAll]
  | cons m numbers ih =>
      rw [List.map_cons, applyAll_cons, ih]
      by_cases hm : n = m
      · subst hm
        have hmention : (Write.mention (toString n)).apply documents (toString n) =
            some (mentioned (documents (toString n))) := apply_self ..
        rw [hmention, mentioned_mentioned, ite_self, if_pos List.mem_cons_self]
      · have hstays : (Write.mention (toString m)).apply documents (toString n) =
            documents (toString n) := apply_of_ne (Decimal.toString_injective.ne hm)
        simp only [hstays, List.mem_cons, hm, false_or]

/-- After whole documents have been stored, each is as it was given. -/
theorem applyAll_stores (documents : String → Option Json) {table : Table Int Document}
    (h : table.keys.Nodup) (n : Int) :
    applyAll documents (table.map fun d => .store (toString d.1) d.2.toJson) (toString n) =
      ((table.get? n).map Document.toJson).or (documents (toString n)) := by
  induction table generalizing documents with
  | nil => rfl
  | cons entry table ih =>
      obtain ⟨m, document⟩ := entry
      obtain ⟨hnew, hrest⟩ := List.nodup_cons.mp h
      rw [List.map_cons, applyAll_cons, ih _ hrest, Table.get?_cons]
      by_cases hm : n = m
      · subst hm
        have hstored : (Write.store (toString n) document.toJson).apply documents (toString n) =
            some document.toJson := apply_self ..
        rw [hstored, Table.get?_eq_none_iff.mpr hnew, if_pos rfl]
        rfl
      · have hstays : (Write.store (toString m) document.toJson).apply documents (toString n) =
            documents (toString n) := apply_of_ne (Decimal.toString_injective.ne hm)
        rw [hstays, if_neg (Ne.symm hm)]

end Write

/-! ## The documents of a change -/

namespace Mapped

theorem documents_mention (m : Mapped) (number : Option Int) :
    (m.mention number).documents = m.documents := by
  unfold mention
  split
  · split <;> rfl
  · rfl

theorem nodup_keys_addRow {w : WriterSettings} {c : Catalog} {change : Change} {m : Mapped}
    (h : m.documents.keys.Nodup) (r : Row) : (addRow w c change m r).documents.keys.Nodup := by
  unfold addRow
  split
  · exact h
  · split
    · exact h
    · split
      · rw [documents_mention]
        exact Table.nodup_keys_put h _ _
      · exact Table.nodup_keys_put h _ _

/-- An entity has one document. -/
theorem nodup_keys_ofChange (w : WriterSettings) (c : Catalog) (change : Change) :
    (ofChange w c change).documents.keys.Nodup := by
  have hstart : (Table.keys ({} : Mapped).documents).Nodup := List.nodup_nil
  exact List.foldlRecOn (motive := fun m : Mapped => m.documents.keys.Nodup) _ _ hstart
    fun m hm r _ => nodup_keys_addRow hm r

end Mapped

namespace Change

/-- What is to become of the documents of an index when a change is written, from those before to those
after. -/
structure IsWritten (w : WriterSettings) (c : Catalog) (change : Change)
    (before after : String → Option Json) : Prop where
  /-- A document that the change makes is as the change makes it. -/
  stored : ∀ n document, (Mapped.ofChange w c change).documents.get? n = some document →
    after (toString n) = some document.toJson
  /-- One that is only mentioned is as before with the mention, or has nothing but the mention if it was
  not there or has been deleted. -/
  mentioned : ∀ n ∈ (Mapped.ofChange w c change).mentioned,
    n ∉ (Mapped.ofChange w c change).documents.keys → after (toString n) =
      some (Write.mentioned (if n ∈ change.deletedParts then none else before (toString n)))
  /-- One that is only deleted is gone. -/
  deleted : ∀ n ∈ change.deletedParts, n ∉ (Mapped.ofChange w c change).documents.keys →
    n ∉ (Mapped.ofChange w c change).mentioned → after (toString n) = none
  /-- All others are as before. -/
  kept : ∀ id, (∀ n, n ∈ (Mapped.ofChange w c change).documents.keys ∨
    n ∈ (Mapped.ofChange w c change).mentioned ∨ n ∈ change.deletedParts → toString n ≠ id) →
      after id = before id

/-- What becomes of the document of an entity: deletions come first, then mentions, then whole
documents. -/
def becomes (w : WriterSettings) (c : Catalog) (change : Change) (n : Int)
    (document : Option Json) : Option Json :=
  let m := Mapped.ofChange w c change
  let left := if n ∈ change.deletedParts then none else document
  ((m.documents.get? n).map Document.toJson).or
    (if n ∈ m.mentioned then some (Write.mentioned left) else left)

theorem applyAll_writes (w : WriterSettings) (c : Catalog) (change : Change)
    (documents : String → Option Json) (n : Int) :
    Write.applyAll documents (change.writes w c) (toString n) =
      change.becomes w c n (documents (toString n)) := by
  unfold writes
  rw [Write.applyAll_append, Write.applyAll_append,
    Write.applyAll_stores _ (Mapped.nodup_keys_ofChange w c change), Write.applyAll_mentions,
    Write.applyAll_deletes]
  rfl

theorem exists_of_mem_writes {w : WriterSettings} {c : Catalog} {change : Change} {v : Write}
    (h : v ∈ change.writes w c) : ∃ n, v.id = toString n ∧
      (n ∈ (Mapped.ofChange w c change).documents.keys ∨
        n ∈ (Mapped.ofChange w c change).mentioned ∨ n ∈ change.deletedParts) := by
  unfold writes at h
  rcases List.mem_append.mp h with h | h
  · rcases List.mem_append.mp h with h | h
    · obtain ⟨n, hn, rfl⟩ := List.mem_map.mp h
      exact ⟨n, rfl, .inr (.inr hn)⟩
    · obtain ⟨n, hn, rfl⟩ := List.mem_map.mp h
      exact ⟨n, rfl, .inr (.inl hn)⟩
  · obtain ⟨entry, hentry, rfl⟩ := List.mem_map.mp h
    exact ⟨entry.1, rfl, .inl (List.mem_map_of_mem hentry)⟩

/-- The writes of a change do what is to be done. -/
theorem isWritten_applyAll (w : WriterSettings) (c : Catalog) (change : Change)
    (documents : String → Option Json) :
    change.IsWritten w c documents (Write.applyAll documents (change.writes w c)) where
  stored n document hdocument := by
    rw [applyAll_writes, becomes, hdocument]
    rfl
  mentioned n hmentioned hother := by
    rw [applyAll_writes, becomes, Table.get?_eq_none_iff.mpr hother, if_pos hmentioned]
    rfl
  deleted n hdeleted hother hunmentioned := by
    rw [applyAll_writes, becomes, Table.get?_eq_none_iff.mpr hother, if_neg hunmentioned, if_pos hdeleted]
    rfl
  kept id hothers := by
    refine Write.applyAll_of_forall_ne fun v hv => ?_
    obtain ⟨n, hid, hn⟩ := exists_of_mem_writes hv
    rw [hid]
    exact hothers n hn

end Change

/-! ## Engines -/

/-- What is known of a search engine that does the writes of a bulk request in order. The documents of an
index are the same under each of its names. -/
structure BulkStore {σ : Type} (client : SearchClient σ) where
  /-- The documents of each index. -/
  documents : σ → String → String → Option Json
  /-- The index that a name stands for. -/
  resolve : σ → String → String
  /-- Whether the engine is in reach and refuses nothing. -/
  IsUp : σ → Prop
  bulk_of_isUp : ∀ s name (ws : List Write), IsUp s → ∃ report t,
    client.send (.bulk (ws.flatMap (Write.lines name))) s = (.ok (.obj report), t) ∧
      IsUp t ∧ resolve t = resolve s ∧ documents t = Function.update (documents s) (resolve s name)
        (Write.applyAll (documents s (resolve s name)) ws)

namespace Cluster

/-- The documents of an index, which is not an alias. -/
def placed (c : Cluster) (place id : String) : Option Json :=
  ((c.indices.get? place).getD []).get? id

/-- A write sets the documents of the index that it is for, and nothing else. -/
theorem exists_write_eq (c : Cluster) (index : String) (w : Write) :
    ∃ docs, c.write index w = c.setDocuments index docs := by
  cases w <;> exact ⟨_, rfl⟩

/-- So do all writes of a bulk request. -/
theorem exists_writeAll_eq (c : Cluster) (index : String) (ws : List Write) :
    ∃ indices, (c.writeAll (ws.flatMap (Write.lines index))).2 = { c with indices } ∧
      ∀ place, place ≠ c.resolve index → indices.get? place = c.indices.get? place := by
  induction ws generalizing c with
  | nil => exact ⟨c.indices, rfl, fun _ _ => rfl⟩
  | cons w ws ih =>
      rw [List.flatMap_cons, writeAll_lines]
      by_cases hrefused : c.refused.contains w.id = true
      · rw [if_pos hrefused]
        exact ih c
      · rw [if_neg hrefused]
        obtain ⟨docs, hwrite⟩ := c.exists_write_eq index w
        obtain ⟨indices, hall, hothers⟩ := ih (c.write index w)
        rw [hwrite] at hall hothers
        refine ⟨indices, hwrite ▸ hall, fun place hplace => ?_⟩
        exact (hothers place hplace).trans (Table.get?_put_of_ne _ _ (Ne.symm hplace))

end Cluster

/-- The engine in memory does the writes of a bulk request in order, if it is available, no error has been
laid out and nothing is refused. -/
def clusterStore : BulkStore Cluster.client where
  documents := Cluster.placed
  resolve := Cluster.resolve
  IsUp c := c.isAvailable = true ∧ c.errors = [] ∧ c.refused = []
  bulk_of_isUp := by
    rintro c name ws ⟨havailable, herrors, hrefused⟩
    obtain ⟨indices, hall, hothers⟩ := c.exists_writeAll_eq name ws
    have hwritten := @Cluster.document?_writeAll name c ws
    rw [hrefused] at hwritten
    have hself : ws.filter (fun w => !([] : List String).contains w.id) = ws :=
      List.filter_eq_self.mpr fun _ _ => rfl
    rw [hself, hall] at hwritten
    refine ⟨_, _, c.answer_eq_perform havailable herrors _, ?_, ?_, ?_⟩
    · show Cluster.isAvailable (c.writeAll _).2 = true ∧ _ = [] ∧ _ = []
      rw [hall]
      exact ⟨havailable, herrors, hrefused⟩
    · show Cluster.resolve (c.writeAll _).2 = _
      rw [hall]
      rfl
    · show Cluster.placed (c.writeAll _).2 = _
      rw [hall]
      funext place
      by_cases hplace : place = c.resolve name
      · subst hplace
        rw [Function.update_self]
        exact hwritten
      · rw [Function.update_of_ne hplace]
        funext id
        unfold Cluster.placed
        rw [hothers place hplace]

/-! ## Writing a change -/

namespace Deployment

variable {σ : Type} {d : Deployment σ} {w : World σ} {change : Change} {index : String}

/-- Writes a change several times. -/
def replicateTimes (d : Deployment σ) (change : Change) : ℕ → Action σ Unit
  | 0 => pure ()
  | n + 1 => do
    let _ ← d.replicate change
    d.replicateTimes change n

/-- Writing a change does its writes in the index that is written to. -/
theorem meets_replicate_bulk (B : BulkStore d.client) (change : Change) (hup : B.IsUp w.engine)
    (hindex : ((d.writeIndex IndexType.data).outcome w).1 = .ok index) :
    (d.replicate change).Meets w fun r after => (∃ report, r = .ok report) ∧
      after.surroundings d = w.surroundings d ∧ B.IsUp after.engine ∧
      B.resolve after.engine = B.resolve w.engine ∧
      B.documents after.engine = Function.update (B.documents w.engine) (B.resolve w.engine index)
        (Write.applyAll (B.documents w.engine (B.resolve w.engine index))
          (change.writes d.settings.writer w.catalog)) := by
  obtain ⟨looked, hview, hengine, houtcome⟩ := outcome_replicate_of_writeIndex change hindex
  unfold Meets
  rw [houtcome]
  rw [← hengine] at hup ⊢
  unfold Deployment.bulk
  split
  · rename_i hempty
    have hnone : change.writes d.settings.writer w.catalog = [] :=
      Write.eq_nil_of_lines (List.isEmpty_iff.mp hempty)
    refine ⟨⟨_, rfl⟩, hview, hup, rfl, ?_⟩
    rw [hnone]
    exact (Function.update_eq_self _ _).symm
  · obtain ⟨report, after, hsend, hstill, hresolve, hdocuments⟩ := B.bulk_of_isUp looked.engine index
      (change.writes d.settings.writer w.catalog) hup
    have hdemand := d.outcome_demand (.bulk ((change.writes d.settings.writer w.catalog).flatMap
      (Write.lines index))) looked
    rw [hsend] at hdemand
    rw [outcome_bind_of_ok hdemand, outcome_ofExcept]
    refine ⟨⟨report, rfl⟩, (surroundings_asked _).trans hview, ?_⟩
    rw [World.asked_engine, hsend]
    exact ⟨hstill, hresolve, hdocuments⟩

/-- A world in which the writes of a change make no difference. -/
structure IsSettled (d : Deployment σ) (B : BulkStore d.client) (change : Change) (index : String)
    (w : World σ) : Prop where
  isUp : B.IsUp w.engine
  writesTo : ((d.writeIndex IndexType.data).outcome w).1 = .ok index
  stays : Write.applyAll (B.documents w.engine (B.resolve w.engine index))
    (change.writes d.settings.writer w.catalog) = B.documents w.engine (B.resolve w.engine index)

/-- One step: the change is written and the documents stay. -/
theorem IsSettled.replicate {B : BulkStore d.client} (h : IsSettled d B change index w) :
    (d.replicate change).Meets w fun r after => (∃ report, r = .ok report) ∧
      B.documents after.engine = B.documents w.engine ∧ IsSettled d B change index after := by
  refine (meets_replicate_bulk B change h.isUp h.writesTo).mono ?_
  rintro r after ⟨hreport, hview, hup, hresolve, hdocuments⟩
  rw [h.stays, Function.update_eq_self] at hdocuments
  have hcatalog : after.catalog = w.catalog := congrArg Prod.fst hview
  refine ⟨hreport, hdocuments, hup, writeIndex_congr hview h.writesTo, ?_⟩
  rw [hdocuments, hresolve, hcatalog]
  exact h.stays

/-- By induction on how often the change is written. -/
theorem IsSettled.replicateTimes {B : BulkStore d.client} (h : IsSettled d B change index w) (n : ℕ) :
    ∃ after, (d.replicateTimes change n).outcome w = (.ok (), after) ∧
      B.documents after.engine = B.documents w.engine := by
  induction n generalizing w with
  | zero => exact ⟨w, rfl, rfl⟩
  | succ n ih =>
      rcases hr : (d.replicate change).outcome w with ⟨r, once⟩
      obtain ⟨⟨report, rfl⟩, hdocuments, hsettled⟩ := h.replicate.of_outcome hr
      obtain ⟨after, hrest, hsame⟩ := ih hsettled
      refine ⟨after, ?_, hsame.trans hdocuments⟩
      rw [Deployment.replicateTimes, outcome_bind_of_ok hr]
      exact hrest

/-- Writing a change makes of every document in the index that is written to what is to become of it, whatever
there was, and leaves all other indices alone. Writing it again, however often, changes nothing. -/
theorem replicate_effect (d : Deployment σ) (B : BulkStore d.client) (change : Change) (w : World σ)
    (index : String) (hup : B.IsUp w.engine)
    (hindex : ((d.writeIndex IndexType.data).outcome w).1 = .ok index) :
    ∃ report once, (d.replicate change).outcome w = (.ok report, once) ∧
      change.IsWritten d.settings.writer w.catalog
        (B.documents w.engine (B.resolve w.engine index))
        (B.documents once.engine (B.resolve w.engine index)) ∧
      (∀ other, other ≠ B.resolve w.engine index →
        B.documents once.engine other = B.documents w.engine other) ∧
      ∀ n, ∃ again, (d.replicateTimes change n).outcome once = (.ok (), again) ∧
        B.documents again.engine = B.documents once.engine := by
  rcases hr : (d.replicate change).outcome w with ⟨r, once⟩
  obtain ⟨⟨report, rfl⟩, hview, hstill, hresolve, hdocuments⟩ :=
    (meets_replicate_bulk B change hup hindex).of_outcome hr
  have hhome := congrFun hdocuments (B.resolve w.engine index)
  rw [Function.update_self] at hhome
  have hcatalog : once.catalog = w.catalog := congrArg Prod.fst hview
  have hsettled : IsSettled d B change index once := by
    refine ⟨hstill, writeIndex_congr hview hindex, ?_⟩
    rw [hresolve, hcatalog, hhome, Write.applyAll_applyAll_of_subset (List.Subset.refl _)]
  refine ⟨report, once, rfl, ?_, fun other hother => ?_, fun n => hsettled.replicateTimes n⟩
  · rw [hhome]
    exact Change.isWritten_applyAll ..
  · rw [hdocuments, Function.update_of_ne hother]

/-! ### A change during a rebuild -/

private def rebuiltDeployment : Deployment Cluster where
  client := Cluster.client
  cache := {}
  queue := {}

/-- The generation that is being built. -/
private def rebuiltIndex : String := rebuiltDeployment.versionName IndexType.data "v2"

/-- Three parts are deleted. One of them has rows nevertheless, one is mentioned nevertheless, and so is an
entity that is not deleted. -/
private def townChange : Change where
  subject := { title := "Town" }
  subjectNumber := 1
  edits := [{ table := "parts", property := some "_SOBJ", rows :=
    [⟨.delete, some 1, some 30, some (.entity 2), fun _ => rfl⟩,
      ⟨.delete, some 1, some 30, some (.entity 3), fun _ => rfl⟩,
      ⟨.delete, some 1, some 30, some (.entity 4), fun _ => rfl⟩] }]
  rows := [{ table := "data", rows :=
    [⟨.insert, some 1, some 30, some (.entity 2), fun _ => rfl⟩,
      ⟨.insert, some 1, some 25, some (.entity 3), fun _ => rfl⟩,
      ⟨.insert, some 1, some 25, some (.entity 6), fun _ => rfl⟩,
      ⟨.insert, some 2, some 26, some (.number 5), fun _ => rfl⟩] }]

/-- A document that was there before. -/
private def oldDocument : Json := .single "old" (.arr [])

/-- A world with a lock, and with documents in the generation that is being built. -/
private def rebuiltWorld : World Cluster :=
  ((rebuiltDeployment.setLock IndexType.data (.str "v2")).outcome {
    engine := { indices := [(rebuiltIndex,
      [2, 3, 4, 6, 7].map fun n : Int => (toString n, oldDocument))] }
    catalog := { next := 9, entities := [(2, { title := "Town", subobject := "_part" })] } }).2

theorem replicate_effect_rebuilt :
    clusterStore.IsUp rebuiltWorld.engine ∧
      ((rebuiltDeployment.writeIndex IndexType.data).outcome rebuiltWorld).1 = .ok rebuiltIndex ∧
      ∃ report once document,
        (rebuiltDeployment.replicate townChange).outcome rebuiltWorld = (.ok report, once) ∧
        (Mapped.ofChange rebuiltDeployment.settings.writer rebuiltWorld.catalog
          townChange).documents.get? 2 = some document ∧
        once.engine.placed rebuiltIndex (toString (2 : Int)) = some document.toJson ∧
        once.engine.placed rebuiltIndex (toString (3 : Int)) = some (.single "noop" (.arr [])) ∧
        once.engine.placed rebuiltIndex (toString (4 : Int)) = none ∧
        once.engine.placed rebuiltIndex (toString (6 : Int)) =
          some (.obj [("old", .arr []), ("noop", .arr [])]) ∧
        once.engine.placed rebuiltIndex (toString (7 : Int)) = some oldDocument ∧
        ∀ n, ∃ again, (rebuiltDeployment.replicateTimes townChange n).outcome once =
          (.ok (), again) ∧ again.engine.placed = once.engine.placed := by
  have hup : clusterStore.IsUp rebuiltWorld.engine := ⟨rfl, rfl, rfl⟩
  have hindex : ((rebuiltDeployment.writeIndex IndexType.data).outcome rebuiltWorld).1 =
      .ok rebuiltIndex := rfl
  obtain ⟨report, once, hdone, hwritten, -, htimes⟩ :=
    replicate_effect rebuiltDeployment clusterStore townChange rebuiltWorld rebuiltIndex hup hindex
  have hhome : clusterStore.resolve rebuiltWorld.engine rebuiltIndex = rebuiltIndex :=
    Cluster.resolve_of_get?_eq_none rfl
  rw [hhome] at hwritten
  obtain ⟨document, hdocument⟩ : ∃ document, (Mapped.ofChange rebuiltDeployment.settings.writer
      rebuiltWorld.catalog townChange).documents.get? 2 = some document := ⟨_, rfl⟩
  refine ⟨hup, hindex, report, once, document, hdone, hdocument, hwritten.stored 2 document hdocument,
    hwritten.mentioned 3 (by decide) (by decide),
    hwritten.deleted 4 (by decide) (by decide) (by decide),
    hwritten.mentioned 6 (by decide) (by decide), ?_, htimes⟩
  refine hwritten.kept _ fun n hn => Decimal.toString_injective.ne ?_
  rintro rfl
  revert hn
  decide

end Deployment

end FactIndex
