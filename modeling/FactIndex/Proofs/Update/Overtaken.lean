import FactIndex.Proofs.Update.Creation
import FactIndex.Proofs.Update.Exact

/-!
# Jobs that are overtaken

The job of an entity waits in the queue while a change of the entity is written at once. When the job is
run it stores the document of the entity anew, as a whole and without any property. So of what the
change had written for the entity nothing is left.

## Main definitions

* `Document.IsCarriedBy`: a stored document has all properties and values of a document.
* `OvertakenCreation`: a change of an entity is written before the job of the entity is run.
* `OvertakenCreation.keeps_iff`: when the values of the change are still there after the job.
-/

namespace FactIndex

open FactIndex.Effect

variable {σ : Type}

/-! ## Documents and their properties -/

namespace Document

/-- What is stored has all properties of a document, with all their values. -/
def IsCarriedBy (document : Document) (stored : Option Json) : Prop :=
  ∀ g ∈ document.groups, stored.bind (·.get? (Field.group g.1)) =
    some (.obj (g.2.map fun f => (f.1, .arr f.2)))

theorem group_injective : Function.Injective Field.group := by
  intro m n h
  exact Decimal.toString_injective ((String.append_right_inj "P:").mp h)

theorem subject_ne_group (n : Int) : "subject" ≠ Field.group n := by
  intro h
  have hfront := congrArg (fun s : String => s.toList.head?) h
  simp [Field.group] at hfront

/-- A document carries what it has. -/
theorem isCarriedBy_self {document : Document} (h : document.groups.keys.Nodup) :
    document.IsCarriedBy (some document.toJson) := by
  intro g hg
  let members : Members := document.groups.map fun g =>
    (Field.group g.1, .obj (g.2.map fun f => (f.1, .arr f.2)))
  have hkeys : members.keys.Nodup := by
    have hmap : members.keys = document.groups.keys.map Field.group := by
      simp [members, Table.keys, Function.comp_def]
    rw [hmap]
    exact h.map group_injective
  have hmem : (Field.group g.1, Json.obj (g.2.map fun f => (f.1, .arr f.2))) ∈ members :=
    List.mem_map_of_mem hg
  show Table.get? (("subject", document.subject.subjectJson) :: members) (Field.group g.1) = _
  rw [Table.get?_cons, if_neg (subject_ne_group g.1)]
  exact Table.get?_of_mem hkeys hmem

/-- The document of an entity that has no property carries nothing. -/
theorem isCarriedBy_bareDocument (document : Document) (e : Entity) :
    document.IsCarriedBy (some e.bareDocument) ↔ document.groups = [] := by
  constructor
  · intro h
    by_contra hgroups
    obtain ⟨g, hg⟩ := List.exists_mem_of_ne_nil _ hgroups
    have hget : e.bareDocument.get? (Field.group g.1) = none := by
      show Table.get? [("subject", e.subjectJson)] (Field.group g.1) = none
      rw [Table.get?_cons, if_neg (subject_ne_group g.1)]
      rfl
    have hcarried := h g hg
    rw [Option.bind_some, hget] at hcarried
    cases hcarried
  · intro h g hg
    rw [h] at hg
    cases hg

theorem nodup_keys_add {document : Document} (h : document.groups.keys.Nodup) (property : Int)
    (fields : List (String × Json)) : (document.add property fields).groups.keys.Nodup :=
  Table.nodup_keys_put h _ _

end Document

namespace Mapped

/-- In each document of a change the properties are apart. -/
def HasGroupsApart (m : Mapped) : Prop :=
  ∀ n document, m.documents.get? n = some document → document.groups.keys.Nodup

theorem HasGroupsApart.put {m : Mapped} (h : m.HasGroupsApart) (n : Int) {document : Document}
    (hnew : document.groups.keys.Nodup) :
    HasGroupsApart { m with documents := m.documents.put n document } := by
  intro n' document' hget
  by_cases hn : n = n'
  · subst hn
    rw [Table.get?_put_self] at hget
    cases hget
    exact hnew
  · rw [Table.get?_put_of_ne _ _ hn] at hget
    exact h n' document' hget

theorem HasGroupsApart.addRow {w : WriterSettings} {c : Catalog} {change : Change} {m : Mapped}
    (h : m.HasGroupsApart) (r : Row) : (addRow w c change m r).HasGroupsApart := by
  have hfound : ∀ n document, m.document? c change n = some document →
      document.groups.keys.Nodup := by
    intro n document hget
    unfold document? at hget
    split at hget
    · rename_i hknown
      cases hget
      exact h n document hknown
    · obtain ⟨e, -, rfl⟩ := Option.map_eq_some_iff.mp hget
      exact List.nodup_nil
  unfold Mapped.addRow
  split
  · exact h
  · rename_i n _
    split
    · exact h
    · rename_i document hget
      split
      · intro n' document' hget'
        rw [documents_mention] at hget'
        exact h.put n (Document.nodup_keys_add (hfound n document hget) _ _) n' document' hget'
      · exact h.put n (hfound n document hget)

theorem hasGroupsApart_ofChange (w : WriterSettings) (c : Catalog) (change : Change) :
    (ofChange w c change).HasGroupsApart := by
  have hstart : HasGroupsApart {} := nofun
  exact List.foldlRecOn (motive := HasGroupsApart) _ _ hstart fun m hm r _ => hm.addRow r

end Mapped

/-! ## What a change has written -/

/-- Of writes to different documents each one is done. -/
theorem Write.applyAll_of_mem {documents : String → Option Json} {ws : List Write}
    (hapart : (ws.map Write.id).Nodup) {w : Write} (hw : w ∈ ws) :
    Write.applyAll documents ws w.id = w.result (documents w.id) := by
  induction ws generalizing documents with
  | nil => cases hw
  | cons v ws ih =>
      obtain ⟨hnew, hrest⟩ := List.nodup_cons.mp hapart
      rw [Write.applyAll_cons]
      rcases List.mem_cons.mp hw with rfl | hw
      · have hothers : ∀ v ∈ ws, v.id ≠ w.id := fun v hv heq =>
          hnew (List.mem_map.mpr ⟨v, hv, heq⟩)
        rw [Write.applyAll_of_forall_ne hothers, Write.apply_self]
      · have hne : w.id ≠ v.id := fun heq => hnew (List.mem_map.mpr ⟨w, hw, heq⟩)
        rw [ih hrest hw, Write.apply_of_ne hne]

/-- A document that a change makes is stored, unless that is refused. -/
theorem DataIndex.applyAll_accepted {client : SearchClient σ} {index : String}
    (E : DataIndex client index) (w : WriterSettings) (c : Catalog) (change : Change)
    (documents : String → Option Json) {n : Int} {document : Document}
    (hget : (Mapped.ofChange w c change).documents.get? n = some document)
    (htaken : E.refuses (.store (toString n) document.toJson) = false) :
    Write.applyAll documents (E.accepted w c change) (toString n) = some document.toJson := by
  let stores : List Write := (Mapped.ofChange w c change).documents.map fun d =>
    .store (toString d.1) d.2.toJson
  have hstored : Write.store (toString n) document.toJson ∈ stores.filter fun v => !E.refuses v :=
    List.mem_filter.mpr ⟨List.mem_map.mpr ⟨(n, document), Table.mem_of_get? hget, rfl⟩,
      by rw [htaken]; rfl⟩
  have hids : stores.map Write.id = (Mapped.ofChange w c change).documents.keys.map toString := by
    simp [stores, Table.keys, Function.comp_def, Write.id]
  have hapart : ((stores.filter fun v => !E.refuses v).map Write.id).Nodup := by
    refine List.Nodup.sublist (List.filter_sublist.map _) ?_
    rw [hids]
    exact (Mapped.nodup_keys_ofChange w c change).map Decimal.toString_injective
  unfold DataIndex.accepted Change.writes
  rw [List.filter_append, Write.applyAll_append]
  exact Write.applyAll_of_mem hapart hstored

/-! ## A change before the job -/

/-- Writing an entity is put off. When the engine is back a change of the entity is written at once, and the
job of the entity is run next. -/
structure OvertakenCreation (d : Deployment σ)
    (E : EntityIndex d.client (d.indexName IndexType.data)) (change : Change)
    (before off lit written back : World σ) : Prop where
  isDeferring : d.isDeferring = true
  putOff : (d.create change.subject).outcome before = (.ok false, off)
  isLit : E.IsUp lit.engine
  number : (lit.catalog.number (.entity change.subject)).1 = change.subjectNumber
  isWritten : (d.safeReplicate change).outcome lit = (.ok true, written)
  documents : E.document? back.engine = E.document? written.engine
  stillNumber : (back.catalog.number (.entity change.subject)).1 = change.subjectNumber
  isCalm : back.IsCalm d E.toDataIndex

namespace OvertakenCreation

variable {d : Deployment σ} {E : EntityIndex d.client (d.indexName IndexType.data)} {change : Change}
  {before off lit written back : World σ}

/-- The change has been written as a whole. -/
theorem document?_written (h : OvertakenCreation d E change before off lit written back) :
    E.document? written.engine = Write.applyAll (E.document? lit.engine)
      (E.accepted d.settings.writer lit.catalog change) := by
  obtain ⟨isDone, tried, htried, hrest⟩ := exists_of_bind_ok h.isWritten
  cases isDone with
  | true =>
      cases hrest
      exact ((Deployment.meets_replicateOrDefer E.toDataIndex change).of_outcome htried).2 h.isLit
  | false =>
      obtain ⟨_, saved, -, hend⟩ := exists_of_bind_ok hrest
      cases hend

/-- The job of the entity is in the queue and succeeds, and it leaves nothing of what the change had written
for the entity: the document has lost all properties. So the values of the change are still there if
and only if it had none. -/
theorem keeps_iff (h : OvertakenCreation d E change before off lit written back)
    (hplain : change.subject.IsPlain) :
    d.queue.Carries (off.queue, off.host) (d.creation change.subject).toMessage ∧
      ∃ replayed,
        (d.recover (d.creation change.subject).toMessage).outcome back =
          (.ok ⟨d.creation change.subject, .ok .succeeded⟩, replayed) ∧
        E.document? replayed.engine =
          Function.update (E.document? written.engine) (toString change.subjectNumber)
            (some (Entity.bareDocument { change.subject with sortkey := none })) ∧
        ∀ document, (Mapped.ofChange d.settings.writer lit.catalog change).documents.get?
            change.subjectNumber = some document →
          E.refuses (.store (toString change.subjectNumber) document.toJson) = false →
          document.IsCarriedBy (E.document? written.engine (toString change.subjectNumber)) ∧
          (document.IsCarriedBy (E.document? replayed.engine (toString change.subjectNumber)) ↔
            document.groups = []) := by
  obtain ⟨hcarries, -, -⟩ := Deployment.create_put_off E h.putOff
  obtain ⟨replayed, hrun, hreplayed⟩ := Deployment.recover_creation hplain h.isCalm
  have hid : back.idOf change.subject = toString change.subjectNumber :=
    congrArg toString h.stillNumber
  rw [h.documents, hid] at hreplayed
  refine ⟨hcarries h.isDeferring, replayed, hrun, hreplayed, fun document hdocument htaken => ⟨?_, ?_⟩⟩
  · rw [h.document?_written, E.applyAll_accepted _ _ _ _ hdocument htaken]
    exact Document.isCarriedBy_self (Mapped.hasGroupsApart_ofChange _ _ _ _ _ hdocument)
  · rw [hreplayed, Function.update_self]
    exact Document.isCarriedBy_bareDocument document _

/-! ### A town that is counted meanwhile -/

private def lateDeployment : Deployment Cluster where
  client := Cluster.client
  cache := {}
  queue := {}

private def lateEntities :
    EntityIndex lateDeployment.client (lateDeployment.indexName IndexType.data) :=
  clusterEntities _

/-- The town has inhabitants. -/
private def countChange : Change where
  subject := { title := "Town" }
  subjectNumber := 13
  rows := [{ table := "data", rows := [⟨.insert, some 13, some 26, some (.number 7), fun _ => rfl⟩] }]
  properties := [(26, { key := "Population", valueType := .number })]

/-- The engine cannot be reached. The town is known. -/
private def lateWorld : World Cluster where
  engine := { isAvailable := false }
  catalog := { next := 14, numbers := [(.entity countChange.subject.hash, 13)] }

/-- The town has been put off. -/
private def lateOff : World Cluster :=
  ((lateDeployment.create countChange.subject).outcome lateWorld).2

/-- The engine is back, and the change has been written. -/
private def lateWritten : World Cluster :=
  ((lateDeployment.safeReplicate countChange).outcome { lateOff with engine := {} }).2

theorem keeps_iff_town :
    countChange.subject.IsPlain ∧
      OvertakenCreation lateDeployment lateEntities countChange lateWorld lateOff
        { lateOff with engine := {} } lateWritten lateWritten ∧
      ∃ replayed document,
        (lateDeployment.recover
            (lateDeployment.creation countChange.subject).toMessage).outcome lateWritten =
          (.ok ⟨lateDeployment.creation countChange.subject, .ok .succeeded⟩, replayed) ∧
        (Mapped.ofChange lateDeployment.settings.writer lateOff.catalog countChange).documents.get?
          13 = some document ∧
        document.IsCarriedBy (lateEntities.document? lateWritten.engine (toString (13 : Int))) ∧
        ¬document.IsCarriedBy (lateEntities.document? replayed.engine (toString (13 : Int))) := by
  have hplain : countChange.subject.IsPlain := by decide
  have hrun : OvertakenCreation lateDeployment lateEntities countChange lateWorld lateOff
      { lateOff with engine := {} } lateWritten lateWritten :=
    ⟨rfl, rfl, ⟨rfl, rfl, rfl⟩, rfl, rfl, rfl, rfl, fun _ _ => rfl, rfl, rfl, rfl, rfl⟩
  obtain ⟨-, replayed, hrecover, -, hkeeps⟩ := keeps_iff hrun hplain
  obtain ⟨document, hdocument, hgroups⟩ : ∃ document,
      (Mapped.ofChange lateDeployment.settings.writer lateOff.catalog countChange).documents.get?
        13 = some document ∧ document.groups ≠ [] := ⟨_, rfl, nofun⟩
  obtain ⟨hcarried, hiff⟩ := hkeeps document hdocument rfl
  exact ⟨hplain, hrun, replayed, document, hrecover, hdocument, hcarried,
    fun hcarries => hgroups (hiff.mp hcarries)⟩

end OvertakenCreation

end FactIndex
