import FactIndex.Proofs.Lookup.Recall
import FactIndex.Proofs.Lookup.Reference
import FactIndex.Proofs.Update.Target

/-!
# References to lists that have been removed

A concept is deleted together with the stored list of its members. What the cache holds of that list is not
deleted: the reference to it is served until its time is over, and every lookup with its key is answered
with it. So it stands for nothing until the list is stored again. All other references stand for what they
stood for.

## Main definitions

* `ListKeeper`, `clusterKeeper`: a search engine that keeps lists and does several writes in order.
* `Written.IsNewest`, `Written.IsLeft`: a search that has not been overtaken, and a list that has not.
* `Faithful.forget`: what a removal leaves of a history.
* `LookupStep.served_after_removal`: what a reference that is still served stands for.
-/

namespace FactIndex

open FactIndex.Digest FactIndex.Effect

variable {σ : Type}

/-! ## The engine -/

/-- What is known of a search engine as the keeper of lists that are deleted by bulk requests. -/
structure ListKeeper (client : SearchClient σ) (index : String) extends
    ListIndex client index, WriteStore client where
  document?_eq : ∀ s, document? s = documents s (resolve s index)
  ping_of_isUp : ∀ s, IsUp s → IsUp (client.send .ping s).2 ∧
    resolve (client.send .ping s).2 = resolve s ∧ documents (client.send .ping s).2 = documents s

/-- The engine in memory as the keeper of lists. -/
def clusterKeeper (index : String) : ListKeeper Cluster.client index where
  toListIndex := LookupStep.clusterLists index
  toWriteStore := clusterWrites
  document?_eq _ := rfl
  ping_of_isUp := by
    rintro c ⟨havailable, herrors, hrefused⟩
    have hping : (Cluster.client.send .ping c).2 = c :=
      congrArg Prod.snd (c.answer_eq_perform havailable herrors .ping)
    rw [hping]
    exact ⟨⟨havailable, herrors, hrefused⟩, rfl, rfl⟩

/-! ## The removal -/

/-- The ids of the lists that are deleted together with concepts. -/
def listIds (ids : List Int) : List String := ids.map fun n => plainHash (.int n)

namespace Deployment

variable {d : Deployment σ} {w tried : World σ}

/-- A write is tried after the engine has been asked whether it is there. Nothing is added to the cache. -/
theorem of_isSafe {job : Job} (h : (d.isSafe job).outcome w = (.ok true, tried)) :
    tried.engine = (d.client.send .ping w.engine).2 ∧
      ∀ full content, tried.kept d full = some content → w.kept d full = some content := by
  unfold isSafe at h
  obtain ⟨locked, looked, hlocked, h⟩ := exists_of_bind_ok h
  have hkept : ∀ full content, looked.kept d full = some content → w.kept d full = some content := by
    have hhas := @Cache.kept_has d.cache (w.cache, w.host) .waiting (d.lockKey IndexType.data)
    have hworld : looked = ((d.isLocked IndexType.data).outcome w).2 := (congrArg Prod.snd hlocked).symm
    rw [hworld]
    exact hhas
  have hengine : looked.engine = w.engine := (congrArg (·.2.engine) hlocked).symm
  cases locked with
  | true =>
      simp only [if_true, pure_bind, Bool.not_false] at h
      obtain ⟨_, _, -, h⟩ := exists_of_bind_ok h
      cases h
  | false =>
      simp only [Bool.false_eq_true, if_false] at h
      obtain ⟨reachable, reached, hping, h⟩ := exists_of_bind_ok h
      have hasked : reached = looked.asked d .ping :=
        (congrArg Prod.snd hping).symm.trans (congrArg Prod.snd (outcome_ping d looked))
      cases reachable with
      | false =>
          obtain ⟨_, _, -, h⟩ := exists_of_bind_ok h
          cases h
      | true =>
          cases h
          rw [hasked]
          exact ⟨congrArg (fun s => (d.client.send .ping s).2) hengine, hkept⟩

/-- A write that was done has been done after that. -/
theorem of_writeOrDefer {job : Job} {write : Action σ Unit} {done : World σ}
    (h : (d.writeOrDefer job write).outcome w = (.ok true, done)) :
    ∃ tried, (d.isSafe job).outcome w = (.ok true, tried) ∧ write.outcome tried = (.ok (), done) := by
  unfold writeOrDefer at h
  obtain ⟨safe, tried, hsafe, h⟩ := exists_of_bind_ok h
  cases safe with
  | false => cases h
  | true =>
      obtain ⟨r, after, hattempt, h⟩ := exists_of_bind_ok h
      rw [outcome_attempt] at hattempt
      cases hattempt
      refine ⟨tried, hsafe, ?_⟩
      rcases hwrite : write.outcome tried with ⟨e | ⟨⟩, t⟩
      · rw [hwrite] at h
        cases e with
        | unavailable text =>
            obtain ⟨_, _, -, h⟩ := exists_of_bind_ok h
            cases h
        | _ => cases h
      · rw [hwrite] at h
        cases h
        rfl

/-- Deleting documents leaves what the cache keeps. -/
theorem leaves_kept_deleteDocuments (d : Deployment σ) (ids : List Json) (isConcept : Bool) :
    Leaves (World.kept d) (d.deleteDocuments ids isConcept) :=
  (leaves_bulk leaves_kept_ask _).bind fun _ => Leaves.pure _

end Deployment

variable {d : Deployment σ} {w w' : World σ}

/-- Concepts that have been deleted have lost their lists. All other lists are there as before, and nothing is
added to the cache. -/
theorem ListKeeper.removed (E : ListKeeper d.client (d.indexName IndexType.lookup)) (ids : List Int)
    (hup : E.IsUp w.engine)
    (hapart : E.resolve w.engine (d.indexName IndexType.data) ≠
      E.resolve w.engine (d.indexName IndexType.lookup))
    (hdone : ((WriteCall.delete ids true).run d).outcome w = (.ok true, w')) :
    (∀ full content, w'.kept d full = some content → w.kept d full = some content) ∧
      ∀ id, E.document? w'.engine id = if id ∈ listIds ids then none else E.document? w.engine id := by
  rw [WriteCall.run_delete] at hdone
  obtain ⟨tried, hsafe, hwrite⟩ := Deployment.of_writeOrDefer hdone
  obtain ⟨hengine, hkept⟩ := Deployment.of_isSafe hsafe
  obtain ⟨hstill, hresolve, hdocuments⟩ := E.ping_of_isUp w.engine hup
  rw [← hengine] at hstill hresolve hdocuments
  obtain ⟨after, hdeleted, hnames, hplaced⟩ :=
    WriteCall.delete_placed (d := d) (w := tried) E.toWriteStore ids true hstill
  obtain rfl : after = w' := (Prod.mk.inj (hdeleted.symm.trans hwrite)).2
  refine ⟨fun full content hcontent => hkept full content ?_, fun id => ?_⟩
  · have hleaves := d.leaves_kept_deleteDocuments (ids.map Json.int) true tried
    have hworld : ((d.deleteDocuments (ids.map Json.int) true).outcome tried).2 = after :=
      congrArg Prod.snd hdeleted
    rwa [← hleaves, hworld]
  · have hnamed : Write.seenAt (E.resolve w.engine) (E.resolve w.engine (d.indexName IndexType.lookup))
        ((WriteCall.delete ids true).named d w .null) = (WriteCall.delete ids true).listWrites :=
      WriteCall.seenAt_named_lists _ hapart
    have hseen : Write.seenAt (E.resolve w.engine) (E.resolve w.engine (d.indexName IndexType.lookup))
        (ids.flatMap (WriteCall.deletionOf d true)) = (listIds ids).map .delete :=
      hnamed.trans (List.map_map ..).symm
    rw [E.document?_eq, hnames, hresolve, hplaced, hresolve, hdocuments, Write.placeAll_apply, hseen,
      Write.applyAll_deletions, ← E.document?_eq]

/-! ## The history -/

namespace Written

/-- No later search has remembered its result under the same key. -/
def IsNewest (r : Written) (later : List Written) : Prop :=
  ∀ s ∈ later, s.isRemembered = true → s.lookup.key ≠ r.lookup.key

/-- No later search has stored a list under the same id. -/
def IsLeft (r : Written) (later : List Written) : Prop :=
  ∀ s ∈ later, s.isStored = true → s.lookup.id ≠ r.lookup.id

/-- A search of which no more is known than that it may have stored a list under an id. -/
def forgotten (id : String) : Written where
  subject := ⟨"", ""⟩
  lookup := { id, body := [], threshold := 0, lifetime := 0 }
  found := ⟨0, [.null], []⟩
  isComplete := false

end Written

theorem exists_of_append_eq {α : Type} {as bs earlier later : List α} {r : α}
    (h : as ++ bs = earlier ++ r :: later) :
    (∃ rest, as = earlier ++ r :: rest ∧ later = rest ++ bs) ∨
      ∃ first, earlier = as ++ first ∧ bs = first ++ r :: later := by
  rcases List.append_eq_append_iff.mp h with ⟨first, hearlier, hbs⟩ | ⟨rest, has, hrest⟩
  · exact .inr ⟨first, hearlier, hbs⟩
  · cases rest with
    | nil => exact .inr ⟨[], by simpa using has.symm, by simpa using hrest.symm⟩
    | cons s rest =>
        obtain ⟨rfl, rfl⟩ := List.cons.inj hrest
        exact .inl ⟨rest, has, rfl⟩

namespace Faithful

variable {E : ListIndex d.client (d.indexName IndexType.lookup)} {history : List Written}

/-- When lists have been removed the history says nothing of them any more. It says all that it said of the
others, and of the cache. -/
theorem forget (h : Faithful d E w history) (ids : List String)
    (hkept : ∀ full content, w'.kept d full = some content → w.kept d full = some content)
    (hothers : ∀ id, id ∉ ids → E.document? w'.engine id = E.document? w.engine id) :
    Faithful d E w' (history ++ ids.map Written.forgotten) where
  kept full content hcontent := by
    obtain ⟨earlier, r, later, rfl, hremembered, hkey, hvalue, hlast⟩ :=
      h.kept full content (hkept full content hcontent)
    refine ⟨earlier, r, later ++ ids.map Written.forgotten, by simp, hremembered, hkey, hvalue,
      fun s hs hsr => ?_⟩
    rcases List.mem_append.mp hs with hs | hs
    · exact hlast s hs hsr
    · obtain ⟨id, -, rfl⟩ := List.mem_map.mp hs
      cases hsr
  stored earlier r later heq hlong hcomplete hlater := by
    rcases exists_of_append_eq heq with ⟨rest, rfl, rfl⟩ | ⟨first, -, hforgotten⟩
    · rw [hothers r.lookup.id fun hid => hlater (Written.forgotten r.lookup.id)
        (List.mem_append_right _ (List.mem_map_of_mem hid)) rfl rfl]
      exact h.stored earlier r rest rfl hlong hcomplete fun s hs => hlater s (List.mem_append_left _ hs)
    · have hmem : r ∈ ids.map Written.forgotten := by simp [hforgotten]
      obtain ⟨id, -, rfl⟩ := List.mem_map.mp hmem
      cases hcomplete

end Faithful

/-! ## A list that is not stored again -/

section NotStored

variable {E : ListIndex d.client (d.indexName IndexType.lookup)} {id : String}

namespace Lookup

/-- What a search has found changes no document, unless it is stored under its id. -/
theorem leaves_document_keep (l : Lookup) (found : Found) (h : l.isStored found = true → l.id ≠ id) :
    Leaves (fun w : World σ => E.document? w.engine id) (l.keep d found) := by
  have hremember : ∀ count name numbers,
      Leaves (fun w : World σ => E.document? w.engine id) (l.remember d count name numbers) :=
    fun _ _ _ _ => rfl
  unfold keep
  dsimp only
  split
  · rename_i hlong
    have hstore : Leaves (fun w : World σ => E.document? w.engine id) (storeList d l.id found.ids) :=
      fun w => (meets_storeList E w l.id found.ids).2.1 id (h hlong)
    exact hstore.bind fun _ => (hremember _ _ _).bind fun _ => Leaves.pure _
  · split
    · exact (hremember _ _ _).bind fun _ => Leaves.pure _
    · exact Leaves.pure _

/-- A lookup changes no document, unless it stores what it has found. -/
theorem document?_resolve (subject : Subject) (l : Lookup)
    (h : ∀ r, l.written? d subject w = some r → r.isStored = true → l.id ≠ id) :
    E.document? ((l.resolve d).outcome w).2.engine id = E.document? w.engine id := by
  have hmaterialize : ∀ looked : World σ, (∀ found searched,
      (l.find d).outcome looked = (.ok found, searched) → l.isStored found = true → l.id ≠ id) →
        E.document? ((l.materialize d).outcome looked).2.engine id = E.document? looked.engine id := by
    intro looked hstored
    have hsearched := congrFun (congrArg Prod.snd (leaves_find (E := E) l looked)) id
    unfold Lookup.materialize
    rcases hr : (l.find d).outcome looked with ⟨e | found, searched⟩
    · rw [hr] at hsearched
      rw [outcome_bind_of_error hr]
      exact hsearched
    · rw [hr] at hsearched
      rw [outcome_bind_of_ok hr]
      exact (leaves_document_keep l found (hstored found searched hr) searched).trans hsearched
  have hengine := (meets_cached (d := d) w l.key).2
  unfold Lookup.written? at h
  unfold Lookup.resolve
  rcases hr : (d.cached? l.key).outcome w with ⟨e | remembered, looked⟩
  · rw [hr] at hengine
    rw [outcome_bind_of_error hr, hengine]
  · rw [hr] at hengine h
    rw [outcome_bind_of_ok hr, ← hengine]
    have hsearches : remembered.getD .null = .null →
        E.document? ((l.materialize d).outcome looked).2.engine id = E.document? looked.engine id := by
      intro hnone
      refine hmaterialize looked fun found searched hfind => ?_
      simp only [if_pos hnone, hfind] at h
      exact h _ rfl
    rcases remembered with _ | value
    · exact hsearches rfl
    · by_cases hnull : value = .null
      · subst hnull
        exact hsearches rfl
      · simp only [if_neg hnull, outcome_ofExcept]

end Lookup

namespace LookupStep

theorem document?_after {step : LookupStep}
    (h : ∀ r, step.written? d w = some r → r.isStored = true → r.lookup.id ≠ id) :
    E.document? (step.after d w).engine id = E.document? w.engine id := by
  cases step with
  | call s c =>
      unfold LookupStep.after
      dsimp only
      rw [LookupCall.outcome_run]
      cases hl : c.lookup? (d.withSubquery s) with
      | none => rfl
      | some l =>
          refine Lookup.document?_resolve (d := d.withSubquery s) (E := E)
            (c.subject (d.withSubquery s)) l fun r hr => ?_
          have hwritten : (LookupStep.call s c).written? d w = some r := by
            unfold LookupStep.written?
            dsimp only
            rw [hl]
            exact hr
          rw [← (Lookup.written_eq hr).2]
          exact h r hwritten
  | wait seconds => rfl

/-- By induction on the steps: where a run stores nothing under an id, the document there stays. -/
theorem document?_run {steps : List LookupStep}
    (h : ∀ r ∈ (run d w steps).2, r.isStored = true → r.lookup.id ≠ id) :
    E.document? (run d w steps).1.engine id = E.document? w.engine id := by
  induction steps generalizing w with
  | nil => rfl
  | cons step steps ih =>
      have hfirst : E.document? (step.after d w).engine id = E.document? w.engine id :=
        document?_after fun r hr => h r (List.mem_append_left _ (by simp [hr]))
      exact (ih fun r hr => h r (List.mem_append_right _ hr)).trans hfirst

end LookupStep

end NotStored

/-! ## References that are still served -/

/-- Every lookup with the key of a reference that is still served is answered with that reference, and the
engine is not asked. -/
theorem Lookup.outcome_resolve_of_served {r : Written} {full : String} {l : Lookup}
    (hreaches : w.ReachesCache d) (hstored : r.isStored = true)
    (hfull : d.cache.fullKey r.lookup.key = .ok full) (hkey : l.key = r.lookup.key)
    (hserved : d.cache.served (w.cache, w.host) full = some (d.cache.form (r.value d))) :
    ∃ record looked, (l.resolve d).outcome w = (.ok ⟨.int r.found.count,
        Clause.reference (d.indexName IndexType.lookup) r.lookup.id "id", record⟩, looked) ∧
      looked.engine = w.engine := by
  have hvalue : r.value d = (Numbers.stored r.lookup.id).remembered (d.indexName IndexType.lookup)
      r.found.count := by
    unfold Written.value
    rw [if_pos hstored]
    rfl
  have hrecalled : w.recalled d l.keyText = some (.ok (r.value d)) := by
    have hread : d.cache.readBack (d.cache.form (r.value d)) = .ok (r.value d) :=
      Cache.readBack_form fun _ => hvalue ▸ Numbers.isReadable_remembered _ _ _
    unfold World.recalled
    rw [← l.key_eq, hkey, hfull]
    simp only [hserved, Option.map_some, hread]
    rw [if_neg (by rw [hvalue]; nofun)]
  obtain ⟨looked, hprospect, hresolve⟩ := l.outcome_resolve hreaches
  rw [hrecalled] at hresolve
  have hremembered : l.ofRemembered (r.value d) = .ok ⟨.int r.found.count,
      Clause.reference (d.indexName IndexType.lookup) r.lookup.id "id",
      [("count", .int r.found.count), ("is_from_cache", .single "id" (.str l.id))]⟩ :=
    hvalue ▸ Numbers.ofRemembered_remembered l _ _ _
  exact ⟨_, looked, hresolve.trans (congrArg (Prod.mk · looked) hremembered),
    congrArg World.Prospect.engine hprospect⟩

namespace LookupStep

/-- Concepts are deleted between two runs of lookups. What is served under a key of the cache afterwards was
remembered by the last search for that key, before or after. If it is a reference, every lookup with the key
is answered with it. If the list was stored before and has been deleted, there is no document behind the
reference unless one has been stored under its id since. Otherwise the document has the list, unless
another list has taken its place. -/
theorem served_after_removal (E : ListKeeper d.client (d.indexName IndexType.lookup))
    {before after : List LookupStep} {ids : List Int} {start filled removed last : World σ}
    {past since : List Written} (hempty : ∀ full, start.kept d full = none)
    (hbefore : run d start before = (filled, past)) (hup : E.IsUp filled.engine)
    (hapart : E.resolve filled.engine (d.indexName IndexType.data) ≠
      E.resolve filled.engine (d.indexName IndexType.lookup))
    (hremoved : ((WriteCall.delete ids true).run d).outcome filled = (.ok true, removed))
    (hafter : run d removed after = (last, since)) {full : String} {content : Json}
    (hserved : d.cache.served (last.cache, last.host) full = some content) :
    ∃ r, r.isRemembered = true ∧ d.cache.fullKey r.lookup.key = .ok full ∧
      content = d.cache.form (r.value d) ∧
      (r.isStored = true → last.ReachesCache d → ∀ settings, ∀ l : Lookup, l.key = r.lookup.key →
        ∃ record looked, (l.resolve (d.withSubquery settings)).outcome last =
          (.ok ⟨.int r.found.count, Clause.reference (d.indexName IndexType.lookup) r.lookup.id "id",
            record⟩, looked) ∧ looked.engine = last.engine) ∧
      ((∃ earlier later, past = earlier ++ r :: later ∧ r.IsNewest (later ++ since) ∧
          (r.isStored = true → r.IsLeft since →
            (r.lookup.id ∈ listIds ids → E.document? last.engine r.lookup.id = none) ∧
            (r.lookup.id ∉ listIds ids → r.IsLeft later →
              E.document? last.engine r.lookup.id = some r.document))) ∨
        ∃ earlier later, since = earlier ++ r :: later ∧ r.IsNewest later ∧
          (r.isStored = true → r.IsLeft later →
            E.document? last.engine r.lookup.id = some r.document)) := by
  have hfilled : Faithful d E.toListIndex filled past := by
    have hrun := faithful_run (.of_empty (E := E.toListIndex) hempty) before
    rwa [hbefore] at hrun
  obtain ⟨hkept, hlists⟩ := E.removed ids hup hapart hremoved
  have hothers : ∀ id, id ∉ listIds ids → E.document? removed.engine id = E.document? filled.engine id := by
    intro id hid
    rw [hlists, if_neg hid]
  have hlast : Faithful d E.toListIndex last (past ++ (listIds ids).map Written.forgotten ++ since) := by
    have hrun := faithful_run (hfilled.forget (listIds ids) hkept hothers) after
    rwa [hafter] at hrun
  -- A list that is not stored again after the removal is there or is not there as it was then.
  have hstays : ∀ r : Written, r.IsLeft since → E.document? last.engine r.lookup.id =
      if r.lookup.id ∈ listIds ids then none else E.document? filled.engine r.lookup.id := by
    intro r hleft
    have hrun : E.document? (run d removed after).1.engine r.lookup.id =
        E.document? removed.engine r.lookup.id := document?_run (by rw [hafter]; exact hleft)
    rwa [hafter, hlists] at hrun
  obtain ⟨earlier, r, later, heq, hremembered, hkey, rfl, hnewest⟩ :=
    hlast.kept full content (Cache.kept_of_served hserved)
  have hcomplete := Written.isComplete_of_isRemembered hremembered
  refine ⟨r, hremembered, hkey, rfl, fun hstored hreaches settings l hl =>
    Lookup.outcome_resolve_of_served (d := d.withSubquery settings) hreaches hstored hkey hl hserved, ?_⟩
  rcases exists_of_append_eq heq with ⟨rest, hpast, rfl⟩ | ⟨first, -, hsince⟩
  · rcases exists_of_append_eq hpast with ⟨between, hwritten, rfl⟩ | ⟨first, -, hforgotten⟩
    · refine .inl ⟨earlier, between, hwritten, fun s hs => hnewest s ?_, fun hstored hleft =>
        ⟨fun hid => ?_, fun hid hagain => ?_⟩⟩
      · rcases List.mem_append.mp hs with hs | hs <;> simp [hs]
      · rw [hstays r hleft, if_pos hid]
      · rw [hstays r hleft, if_neg hid]
        exact hfilled.stored earlier r between hwritten hstored hcomplete hagain
    · have hmem : r ∈ (listIds ids).map Written.forgotten := by simp [hforgotten]
      obtain ⟨id, -, rfl⟩ := List.mem_map.mp hmem
      cases hcomplete
  · refine .inr ⟨first, later, hsince, hnewest, fun hstored hleft => ?_⟩
    exact hlast.stored earlier r later heq hstored hcomplete hleft

/-! ### A concept that is deleted -/

private def portDeployment : Deployment Cluster where
  client := Cluster.client
  cache := {}
  queue := {}

private def portKeeper : ListKeeper portDeployment.client (portDeployment.indexName IndexType.lookup) :=
  clusterKeeper _

private def portStart : World Cluster where
  engine := { script := [.single "hits" (.arr [.int 10, .int 11])] }
  catalog := { next := 100 }

/-- The lookup of the ports, which are two. One is enough for the list to be stored. -/
private def portStep : LookupStep :=
  .call { conceptThreshold := 1 } (.concept { title := "Ports", space := 108 } (.int 15)
    (.category [{ title := "Port", space := 14 }] none false) (.arr []))

private def portLookup : Lookup :=
  (portDeployment.withSubquery { conceptThreshold := 1 }).conceptLookup (.int 15)
    (Description.category [{ title := "Port", space := 14 }] none false).fingerprint (.arr [])

private def portWritten : Written := ⟨⟨"", "15"⟩, portLookup, ⟨2, [.int 10, .int 11], []⟩, true⟩

private def portFilled : World Cluster := (run portDeployment portStart [portStep]).1

/-- The concept has been deleted. -/
private def portRemoved : World Cluster :=
  (((WriteCall.delete [15] true).run portDeployment).outcome portFilled).2

/-- It has been looked up once more. -/
private def portLast : World Cluster := (run portDeployment portRemoved [portStep]).1

/-- What is served under the key of the lookup at the end. -/
private def portServed : Option Json :=
  (portDeployment.cache.fullKey portLookup.key).toOption.bind
    (portDeployment.cache.served (portLast.cache, portLast.host))

private theorem port_run : (run portDeployment portStart [portStep]).2 = [portWritten] ∧
    (run portDeployment portRemoved [portStep]).2 = [] ∧
    (((WriteCall.delete [15] true).run portDeployment).outcome portFilled).1 = .ok true ∧
    portServed = some (portWritten.value portDeployment) ∧
    portWritten.lookup.id ∈ listIds [15] := by
  decide +kernel

/-- The ports are looked up, their concept is deleted, and they are looked up again. The answer is the
reference to a list that is not there any more. -/
theorem served_after_removal_ports :
    (∀ full, portStart.kept portDeployment full = none) ∧ portKeeper.IsUp portFilled.engine ∧
      portKeeper.resolve portFilled.engine (portDeployment.indexName IndexType.data) ≠
        portKeeper.resolve portFilled.engine (portDeployment.indexName IndexType.lookup) ∧
      ((WriteCall.delete [15] true).run portDeployment).outcome portFilled = (.ok true, portRemoved) ∧
      ∃ full, portDeployment.cache.served (portLast.cache, portLast.host) full =
          some (portWritten.value portDeployment) ∧
        (∃ record looked, (portLookup.resolve portDeployment).outcome portLast =
          (.ok ⟨.int 2, Clause.reference (portDeployment.indexName IndexType.lookup) portLookup.id "id",
            record⟩, looked)) ∧
        portKeeper.document? portLast.engine portLookup.id = none := by
  obtain ⟨hbefore, hafter, hdone, hserved, hid⟩ := port_run
  have hfirst : ∀ {α β : Type} (p : α × β) {a : α}, p.1 = a → p = (a, p.2) :=
    fun p _ h => Prod.ext h rfl
  have hsecond : ∀ {α β : Type} (p : α × β) {b : β}, p.2 = b → p = (p.1, b) :=
    fun p _ h => Prod.ext rfl h
  have hempty : ∀ full, portStart.kept portDeployment full = none := fun _ => rfl
  have hup : portKeeper.IsUp portFilled.engine := ⟨rfl, rfl, rfl⟩
  have hapart : portKeeper.resolve portFilled.engine (portDeployment.indexName IndexType.data) ≠
      portKeeper.resolve portFilled.engine (portDeployment.indexName IndexType.lookup) := by
    have hname : ∀ type, portKeeper.resolve portFilled.engine (portDeployment.indexName type) =
        portDeployment.indexName type := fun _ => Cluster.resolve_of_get?_eq_none rfl
    rw [hname, hname]
    decide +kernel
  have hremoved : ((WriteCall.delete [15] true).run portDeployment).outcome portFilled =
      (.ok true, portRemoved) := hfirst _ hdone
  obtain ⟨full, hfull, hserved⟩ := Option.bind_eq_some_iff.mp hserved
  obtain ⟨r, -, hkey, hvalue, hanswered, hplace⟩ := served_after_removal portKeeper hempty
    (hsecond _ hbefore) hup hapart hremoved (hsecond _ hafter) hserved
  refine ⟨hempty, hup, hapart, hremoved, full, hserved, ?_⟩
  rcases hplace with ⟨earlier, later, hpast, -, hlist⟩ | ⟨earlier, later, hsince, -⟩
  · have hmem : r ∈ earlier ++ r :: later := by simp
    rw [← hpast] at hmem
    obtain rfl := List.mem_singleton.mp hmem
    obtain ⟨record, looked, hanswer, -⟩ :=
      hanswered (by decide) rfl portDeployment.settings.subquery portLookup rfl
    exact ⟨⟨record, looked, hanswer⟩, (hlist (by decide) (fun _ h => nomatch h)).1 hid⟩
  · simp at hsince

end LookupStep

end FactIndex
