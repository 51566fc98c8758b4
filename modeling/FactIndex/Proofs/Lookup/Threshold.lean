import FactIndex.Proofs.Lookup.Identity
import FactIndex.Proofs.Lookup.Repetition

/-!
# Which results stand in clauses

A lookup stores what it has found if there are so many in all as a threshold says, and else the numbers stand
in the clause themselves. How many there are in all is read off the answer. A lookup that follows a property
from object to subject has as its result the values of a field, of which a document can have any number. There
the list in a clause can be as long as the threshold or longer, and is so exactly if the documents are fewer
than the threshold and their values are not. This is so for what is searched for as for what is remembered.

## Main definitions

* `Found.IsWithin`: what is used of a result is bounded by a threshold.
* `Hits.CountsAll`: an answer counts at least the documents that it names.
* `Lookup.exists_written`: every answer to a call is that of a search in the history.
* `LookupStep.isWithin_iff`: when the numbers in a clause are within the threshold.
-/

namespace FactIndex

open FactIndex.Digest FactIndex.Effect

variable {σ : Type} {d : Deployment σ}

/-! ## Thresholds -/

/-- What is used of a result is within a threshold: a list that stands in a clause is shorter, and what is as
long as the threshold or longer is referred to. -/
structure Found.IsWithin (found : Found) (threshold : Int) (reference numbers : Json) : Prop where
  inline : ∀ ids, numbers = .arr ids → (ids.length : Int) < threshold
  stored : threshold ≤ found.ids.length → numbers = reference

/-- The number of results from which on a call stores them. -/
def LookupCall.threshold (d : Deployment σ) : LookupCall → Int
  | .plain _ _ _ | .chain _ _ _ _ | .inverse _ _ _ => d.settings.subquery.threshold
  | .concept _ _ _ _ => d.settings.subquery.conceptThreshold

theorem LookupCall.threshold_lookup {call : LookupCall} {l : Lookup} (h : call.lookup? d = some l) :
    l.threshold = call.threshold d := by
  rw [eq_of_lookup? h]
  cases call <;> rfl

/-- The mark in front of an id shows whether the values of a field are looked up. -/
theorem LookupCall.mark_eq_iff {call : LookupCall} {l : Lookup} (h : call.lookup? d = some l) :
    (call.subject d).mark = "in:" ↔ l.field ≠ none := by
  rw [eq_of_lookup? h]
  cases call with
  | plain | chain | concept => exact iff_of_false (by simp [subject]) (fun hfield => hfield rfl)
  | inverse => exact iff_of_true rfl (by simp [lookup, Deployment.inverseLookup])

/-- An answer counts at least the documents that it names. -/
def Hits.CountsAll (answer : Except ClientError Json) : Prop :=
  ∀ ms errors items named total, ClientError.ofSearch answer = .ok (ms, errors) →
    Hits.list (Hits.of ms) = .ok items → items.elements = .ok named → Hits.total (Hits.of ms) = .ok total →
      (named.length : Int) ≤ total

namespace Lookup

variable {l : Lookup} {found : Found} {answer : Except ClientError Json}

/-- The numbers of documents are no more than are counted. -/
theorem length_ids_le (hfield : l.field = none) (hcounts : Hits.CountsAll answer)
    (h : l.ofSearch answer = .ok found) : (found.ids.length : Int) ≤ found.count := by
  obtain ⟨⟨ms, errors⟩, hms, h⟩ := Failure.exists_of_bind_ok h
  obtain ⟨⟨count, ids⟩, hanswer, h⟩ := Failure.exists_of_bind_ok h
  cases h
  obtain ⟨total, htotal, hanswer⟩ := Failure.exists_of_bind_ok hanswer
  rw [hfield] at hanswer
  obtain ⟨numbers, hnumbers, hanswer⟩ := Failure.exists_of_bind_ok hanswer
  cases hanswer
  obtain ⟨items, hitems, hnumbers⟩ := Failure.exists_of_bind_ok hnumbers
  obtain ⟨named, hnamed, hnumbers⟩ := Failure.exists_of_bind_ok hnumbers
  rw [Failure.length_of_mapM hnumbers]
  exact hcounts ms errors items named _ hms hitems hnamed htotal

/-- A result is used as it is, or referred to. -/
theorem numbersOf_eq_or (l : Lookup) (found : Found) : l.numbersOf d found = .arr found.ids ∨
    l.numbersOf d found = Clause.reference (d.indexName IndexType.lookup) l.id "id" := by
  unfold numbersOf
  split
  · exact .inr rfl
  · exact .inl rfl

/-- A document is referred to only if a list was stored in it. -/
theorem isStored_of_numbersOf {id : String}
    (h : l.numbersOf d found = Clause.reference (d.indexName IndexType.lookup) id "id") :
    l.isStored found = true := by
  unfold numbersOf at h
  split at h
  · assumption
  · cases h

/-- What is used of a result is within the threshold, unless fewer are counted and no fewer were found. -/
theorem isWithin_numbersOf (hpos : 0 < l.threshold) (found : Found) :
    found.IsWithin l.threshold (Clause.reference (d.indexName IndexType.lookup) l.id "id")
        (l.numbersOf d found) ↔
      ¬ (found.count < l.threshold ∧ l.threshold ≤ found.ids.length) := by
  unfold numbersOf
  cases hstored : l.isStored found with
  | true =>
      have hcount : l.threshold ≤ found.count := by
        simp only [isStored, Bool.and_eq_true, decide_eq_true_eq] at hstored
        exact hstored.1
      rw [if_pos rfl]
      refine iff_of_true ⟨?_, fun _ => rfl⟩ (by omega)
      rintro ids ⟨⟩
  | false =>
      rw [if_neg (by decide)]
      have hshort : l.threshold ≤ found.ids.length → found.count < l.threshold := by
        intro hlong
        have hids : found.ids ≠ [] := by
          rintro hnil
          rw [hnil] at hlong
          exact absurd hlong (by simpa using hpos)
        simp only [isStored, hids, ne_eq, not_false_eq_true, decide_true, Bool.and_true,
          decide_eq_false_iff_not] at hstored
        omega
      constructor
      · intro h hboth
        have hlt := h.inline _ rfl
        omega
      · intro h
        refine ⟨?_, fun hlong => absurd ⟨hshort hlong, hlong⟩ h⟩
        rintro ids ⟨⟩
        by_contra hlong
        exact h ⟨hshort (by omega), by omega⟩

end Lookup

/-! ## Where results come from -/

/-- What is answered from the cache is kept there. -/
theorem Deployment.exists_kept {w looked : World σ} {key : String} {value : Json}
    (h : (d.cached? (.str key)).outcome w = (.ok (some value), looked)) :
    ∃ full content, d.cache.fullKey (.str key) = .ok full ∧ w.kept d full = some content ∧
      d.cache.readBack content = .ok value := by
  obtain ⟨full, hfull⟩ := d.cache.exists_fullKey key
  have hanswer := (d.fst_cached (.str key) w).symm.trans (congrArg Prod.fst h)
  have hget : ((d.cache.get .waiting (.str key)).outcome (w.cache, w.host)).1 = .ok value := by
    rcases hr : ((d.cache.get .waiting (.str key)).outcome (w.cache, w.host)).1 with e | found
    · rw [hr] at hanswer
      cases e <;> cases hanswer
    · rw [hr] at hanswer
      cases hanswer
      rfl
  rw [Cache.get_eq (Cache.isConnected_of_get (.inl ⟨value, hget⟩)) hfull] at hget
  cases hserved : d.cache.served (w.cache, w.host) full with
  | none =>
      rw [hserved] at hget
      cases hget
  | some content =>
      rw [hserved] at hget
      exact ⟨full, content, hfull, Cache.kept_of_served hserved, hget⟩

theorem Written.value_eq (rec : Written) : rec.value d = rec.lookup.valueOf d rec.found := by
  unfold Written.value Written.isStored Lookup.valueOf Lookup.nameOf Lookup.numbersOf Lookup.remembered
  cases rec.lookup.isStored rec.found <;> rfl

/-- What is written was found by a search. -/
theorem Lookup.ofSearch_of_written {subject : Subject} {l : Lookup} {w : World σ} {rec : Written}
    (h : l.written? d subject w = some rec) :
    l.ofSearch (d.client.send (l.request d) w.engine).1 = .ok rec.found := by
  unfold Lookup.written? at h
  split at h
  · rename_i looked hcached
    have hengine : looked.engine = w.engine := ((meets_cached w l.key).of_outcome hcached).2
    split at h
    · split at h
      · rename_i found searched hfind
        cases h
        rw [l.find_eq, outcome_bind_of_ok (outcome_ask d _ looked), outcome_ofExcept, hengine] at hfind
        exact congrArg Prod.fst hfind
      · cases h
    · cases h
  · cases h

/-- A lookup that is answered was searched for in its own right, or a search with the same key before it, whose
result is remembered. -/
theorem Lookup.exists_written {E : ListIndex d.client (d.indexName IndexType.lookup)} {w after : World σ}
    {history : List Written} (h : Faithful d E w history)
    (hread : ∀ rec ∈ history, d.cache.readBack (d.cache.form (rec.value d)) = .ok (rec.value d))
    (subject : Subject) {l : Lookup} {m : Materialized} (hresolve : (l.resolve d).outcome w = (.ok m, after)) :
    ∃ earlier rec later, history ++ (l.written? d subject w).toList = earlier ++ rec :: later ∧
      rec.lookup.key = l.key ∧ rec.isComplete = true ∧ m.numbers = rec.lookup.numbersOf d rec.found ∧
      (rec ∈ history ∨ rec.lookup = l) := by
  have hsearched : ∀ looked, (l.materialize d).outcome looked = (.ok m, after) → ∃ found searched,
      (l.find d).outcome looked = (.ok found, searched) ∧ ((l.keep d found).outcome searched).1.isOk = true ∧
        m.numbers = l.numbersOf d found := by
    intro looked hmaterialize
    obtain ⟨found, searched, hfind, hkeep⟩ := exists_of_bind_ok hmaterialize
    obtain ⟨rfl, -⟩ := outcome_keep_ok hkeep
    exact ⟨found, searched, hfind, by rw [hkeep]; rfl, rfl⟩
  obtain ⟨remembered, looked, hcached, hrest⟩ := exists_of_bind_ok hresolve
  by_cases hsome : remembered.getD .null = .null
  · have hmaterialize : (l.materialize d).outcome looked = (.ok m, after) := by
      cases remembered with
      | none => exact hrest
      | some value =>
          cases hsome
          exact hrest
    obtain ⟨found, searched, hfind, hok, hnumbers⟩ := hsearched looked hmaterialize
    refine ⟨history, ⟨subject, l, found, true⟩, [], ?_, rfl, rfl, hnumbers, .inr rfl⟩
    simp only [written?, hcached, if_pos hsome, hfind, hok, Option.toList_some]
  · cases remembered with
    | none => exact absurd rfl hsome
    | some value =>
        have hgiven : value ≠ .null := hsome
        simp only [if_neg hgiven, outcome_ofExcept] at hrest
        obtain ⟨hm, rfl⟩ := Prod.mk.inj hrest
        rw [l.key_eq] at hcached
        obtain ⟨full, content, hfull, hkept, hvalue⟩ := d.exists_kept hcached
        obtain ⟨earlier, rec, later, rfl, hremembered, hkey, rfl, -⟩ := h.kept full content hkept
        have hmem : rec ∈ earlier ++ rec :: later := by simp
        rw [hread rec hmem] at hvalue
        obtain rfl := Except.ok.inj hvalue
        have hkeys : rec.lookup.key = l.key := congrArg Json.str (Cache.fullKey_inj hkey hfull)
        rw [rec.value_eq, ofRemembered_valueOf] at hm
        cases hm
        exact ⟨earlier, rec, later ++ (l.written? d subject w).toList, by simp, hkeys,
          Written.isComplete_of_isRemembered hremembered, rfl, .inl hmem⟩

/-- Without a collision, a lookup has the id and the threshold of a search with the same key. -/
theorem Lookup.same_of_key {history : List Written} {rec : Written} {l : Lookup}
    (hapart : TellsApart (l.keyedText :: history.map fun rec => rec.lookup.keyedText))
    (hown : rec ∈ history ∨ rec.lookup = l) (hkey : rec.lookup.key = l.key) :
    rec.lookup.id = l.id ∧ rec.lookup.threshold = l.threshold := by
  have htexts : TellsApart [rec.lookup.keyedText, l.keyedText] := by
    refine hapart.mono fun text htext => ?_
    simp only [List.mem_cons, List.not_mem_nil, or_false] at htext
    rcases htext with rfl | rfl
    · rcases hown with hrec | hself
      · exact List.mem_cons_of_mem _ (List.mem_map_of_mem hrec)
      · rw [hself]
        exact List.mem_cons_self
    · exact List.mem_cons_self
  obtain ⟨hid, hthreshold, -⟩ := (key_eq_iff htexts).mp hkey
  exact ⟨hid, hthreshold⟩

/-- A call with nothing to be resolved has a clause with no numbers. -/
theorem LookupCall.clause_of_lookup? {call : LookupCall} {w after : World σ} {r : Resolved}
    (hl : call.lookup? d = none) (h : (call.run d).outcome w = (.ok r, after)) :
    r.clause = d.hasNumber call.target (.arr []) := by
  cases call with
  | plain | chain => cases hl
  | concept c number description params =>
      simp only [lookup?, Option.map_eq_none_iff] at hl
      obtain ⟨text, searched, htext, -⟩ := exists_of_bind_ok h
      rw [outcome_ofExcept] at htext
      rw [(Prod.mk.inj htext).1] at hl
      cases hl
  | inverse key field params =>
      simp only [lookup?] at hl
      simp only [run, Deployment.lookupInverse] at h
      split at hl
      · rename_i hnothing
        rw [if_pos hnothing] at h
        cases h
        rfl
      · cases hl

namespace LookupStep

theorem run_append (d : Deployment σ) (w : World σ) (steps more : List LookupStep) :
    run d w (steps ++ more) =
      ((run d (run d w steps).1 more).1, (run d w steps).2 ++ (run d (run d w steps).1 more).2) := by
  induction steps generalizing w with
  | nil => rfl
  | cons step steps ih =>
      rw [List.cons_append, run, ih]
      simp only [run, List.append_assoc]

/-- What a call does at the end of a run. -/
theorem run_concat_call (d : Deployment σ) (w : World σ) (steps : List LookupStep) (s : SubquerySettings)
    {c : LookupCall} {l : Lookup} (hl : c.lookup? (d.withSubquery s) = some l) :
    run d w (steps ++ [.call s c]) =
      (((l.resolve (d.withSubquery s)).outcome (run d w steps).1).2, (run d w steps).2 ++
        (l.written? (d.withSubquery s) (c.subject (d.withSubquery s)) (run d w steps).1).toList) := by
  rw [run_append]
  simp only [run, after, written?, LookupCall.outcome_run, hl, Option.bind_some, List.append_nil]

/-- What is remembered in a run is read back, if the answers of the engine are. -/
theorem readBack_run (hfits : d.cache.storage ≠ .memory → ∀ (l : Lookup) (engine : σ) (answer : Json),
      (d.client.send (l.request d) engine).1 = .ok answer → Json.Fits Json.argumentDepth answer)
    (w : World σ) (steps : List LookupStep) :
    ∀ rec ∈ (run d w steps).2, d.cache.readBack (d.cache.form (rec.value d)) = .ok (rec.value d) := by
  intro rec hrec
  by_cases hmemory : d.cache.storage = .memory
  · exact Cache.readBack_form fun hserver => absurd hmemory hserver
  · obtain ⟨before, -, s, c, -, -, -, hwritten⟩ := exists_call d w steps rec hrec
    rw [rec.value_eq]
    exact Lookup.readBack_valueOf (hfits hmemory rec.lookup _) (Lookup.ofSearch_of_written hwritten)

/-- Lookups with the same id are of the same kind. -/
theorem field_eq_none_iff {d d' : Deployment σ} {c c' : LookupCall} {l l' : Lookup}
    (hl : c.lookup? d = some l) (hl' : c'.lookup? d' = some l') (hid : l.id = l'.id) :
    l.field = none ↔ l'.field = none := by
  rw [LookupCall.id_lookup hl, LookupCall.id_lookup hl'] at hid
  have hmark : (c.subject d).mark = (c'.subject d').mark := (append_md5_inj hid).1
  have hkind := LookupCall.mark_eq_iff hl
  rw [hmark, LookupCall.mark_eq_iff hl'] at hkind
  exact not_iff_not.mp hkind.symm

/-- Whatever has been looked up since the cache was empty: a clause has no numbers, if there is nothing to be
looked up, and else those of a search of the call itself or of one before it with the same key. They are within
the threshold of the call, unless fewer documents are counted than it says and no fewer numbers were found. So
they are within it where the numbers are those of documents, and the documents that are named are all counted.
A document that is referred to has the list, until another one is stored in its place. -/
theorem isWithin_iff (E : ListIndex d.client (d.indexName IndexType.lookup)) {w : World σ}
    (hempty : ∀ full, w.kept d full = none)
    (hfits : d.cache.storage ≠ .memory → ∀ (l : Lookup) (engine : σ) (answer : Json),
      (d.client.send (l.request d) engine).1 = .ok answer → Json.Fits Json.argumentDepth answer)
    (steps : List LookupStep) {s : SubquerySettings} {c : LookupCall}
    (hpos : 0 < c.threshold (d.withSubquery s)) {r : Resolved} {after : World σ}
    (h : (c.run (d.withSubquery s)).outcome (run d w steps).1 = (.ok r, after)) :
    ∃ numbers, r.clause = (d.withSubquery s).hasNumber c.target numbers ∧
      (c.lookup? (d.withSubquery s) = none → numbers = .arr []) ∧
      ∀ l, c.lookup? (d.withSubquery s) = some l →
        TellsApart (l.keyedText :: (run d w steps).2.map fun rec => rec.lookup.keyedText) →
        ∃ earlier rec later before, (run d w (steps ++ [.call s c])).2 = earlier ++ rec :: later ∧
          rec.lookup.key = l.key ∧ before <+: steps ∧
          let answer := (d.client.send (rec.lookup.request d) (run d w before).1.engine).1
          let threshold := c.threshold (d.withSubquery s)
          let reference := Clause.reference (d.indexName IndexType.lookup) l.id "id"
          rec.lookup.ofSearch answer = .ok rec.found ∧
          (numbers = .arr rec.found.ids ∨ numbers = reference) ∧
          (rec.found.IsWithin threshold reference numbers ↔
            ¬ (rec.found.count < threshold ∧ threshold ≤ rec.found.ids.length)) ∧
          (l.field = none → Hits.CountsAll answer → rec.found.IsWithin threshold reference numbers) ∧
          (numbers = reference → (∀ t ∈ later, t.isStored = true → t.lookup.id ≠ l.id) →
            E.document? after.engine l.id = some rec.document) := by
  cases hl : c.lookup? (d.withSubquery s) with
  | none => exact ⟨.arr [], LookupCall.clause_of_lookup? hl h, fun _ => rfl, nofun⟩
  | some l =>
      obtain ⟨header, -, hrun⟩ := LookupCall.run_of_lookup? hl
      rw [hrun] at h
      obtain ⟨m, resolved, hresolve, h⟩ := exists_of_bind_ok h
      cases h
      refine ⟨m.numbers, rfl, nofun, ?_⟩
      rintro _ ⟨⟩ hapart
      have hconcat := run_concat_call d w steps s hl
      have hbefore : Faithful d E (run d w steps).1 (run d w steps).2 := faithful_run (.of_empty hempty) steps
      have hafter : Faithful d E (run d w (steps ++ [.call s c])).1 (run d w (steps ++ [.call s c])).2 :=
        faithful_run (.of_empty hempty) _
      obtain ⟨earlier, rec, later, hsplit, hkey, hcomplete, hnumbers, hown⟩ :=
        Lookup.exists_written (d := d.withSubquery s) (E := E) ⟨hbefore.kept, hbefore.stored⟩
          (readBack_run hfits w steps) (c.subject (d.withSubquery s)) hresolve
      have hhistory : (run d w (steps ++ [.call s c])).2 = earlier ++ rec :: later := by rw [hconcat, hsplit]
      obtain ⟨before, rest, s', c', hsteps, hl', -, hwritten⟩ :=
        exists_call d w (steps ++ [.call s c]) rec (by simp [hhistory])
      have hsearch := Lookup.ofSearch_of_written hwritten
      obtain ⟨hid, hthreshold⟩ := Lookup.same_of_key hapart hown hkey
      have hlimit : rec.lookup.threshold = c.threshold (d.withSubquery s) :=
        hthreshold.trans (LookupCall.threshold_lookup hl)
      have hwithin := rec.lookup.isWithin_numbersOf (d := d) (hlimit ▸ hpos) rec.found
      have hform := rec.lookup.numbersOf_eq_or (d := d) rec.found
      rw [hid] at hform
      rw [hid, hlimit] at hwithin
      rw [hnumbers]
      refine ⟨earlier, rec, later, before, hhistory, hkey, ?_, hsearch, hform, hwithin,
        fun hfield hcounts => ?_, fun hreference hlater => ?_⟩
      · have hlength := congrArg List.length hsteps
        simp only [List.length_append, List.length_cons, List.length_nil] at hlength
        exact List.prefix_of_prefix_length_le ⟨_, hsteps.symm⟩ (List.prefix_append _ _) (by omega)
      · have hle := Lookup.length_ids_le ((field_eq_none_iff hl' hl hid).mpr hfield) hcounts hsearch
        exact hwithin.mpr (by omega)
      · have hstored : rec.isStored = true := Lookup.isStored_of_numbersOf hreference
        have hdocument := hafter.stored earlier rec later hhistory hstored hcomplete (by rwa [hid])
        rw [hconcat, hresolve, hid] at hdocument
        exact hdocument

private def placesDeployment : Deployment Cluster where
  client := Cluster.client
  cache := {}
  queue := {}

/-- An engine that finds one document, with three values of a field. -/
private def placesWorld : World Cluster where
  engine := { script := [.single "hits" (.arr [.obj [("_id", .str "10"),
    ("_source", .single "P:25" (.single "wpgID" (Json.ofInts [11, 12, 13])))]])] }
  catalog := { next := 100 }

/-- Lists of two numbers are to be stored. -/
private def placesSettings : SubquerySettings := { threshold := 2 }

private def placesStore : Deployment Cluster := placesDeployment.withSubquery placesSettings

private def placesCall : LookupCall := .inverse "Located_in" "P:25.wpgID" (Json.ofInts [10])

private def placesLookup : Lookup := placesStore.inverseLookup "Located_in" "P:25.wpgID" (Json.ofInts [10])

private def placesSteps : List LookupStep := [.call placesSettings placesCall]

/-- The search finds three numbers and counts one document. -/
private def placesWritten : Written where
  subject := placesCall.subject placesStore
  lookup := placesLookup
  found := ⟨1, [.int 11, .int 12, .int 13], []⟩
  isComplete := true

private theorem places_run :
    (run placesDeployment placesWorld placesSteps).2 = [placesWritten] ∧
      (run placesDeployment placesWorld (placesSteps ++ [.call placesSettings placesCall])).2 =
        [placesWritten] ∧
      ((placesCall.run placesStore).outcome (run placesDeployment placesWorld placesSteps).1).1.map
        (fun r => r.clause) = .ok (placesStore.hasNumber "_id" (Json.ofInts [11, 12, 13])) ∧
      placesCall.lookup? placesStore = some placesLookup := by
  decide +kernel

/-- Three numbers stand in a clause although two are to be stored, and so they do again when they are
remembered. -/
theorem isWithin_iff_places : ∃ r after,
    (∀ full, placesWorld.kept placesDeployment full = none) ∧ 0 < placesCall.threshold placesStore ∧
      (placesCall.run placesStore).outcome (run placesDeployment placesWorld placesSteps).1 =
        (.ok r, after) ∧
      r.clause = placesStore.hasNumber "_id" (Json.ofInts [11, 12, 13]) ∧
      placesCall.lookup? placesStore = some placesLookup ∧
      ¬ placesWritten.found.IsWithin (placesCall.threshold placesStore)
        (Clause.reference "semindex-lookup" placesLookup.id "id") (Json.ofInts [11, 12, 13]) := by
  obtain ⟨hhistory, hhistory', hclause, hlookup⟩ := places_run
  obtain ⟨r, hr, hclause⟩ := exists_of_map_ok hclause
  have hempty : ∀ full, placesWorld.kept placesDeployment full = none := fun _ => rfl
  have hpos : 0 < placesCall.threshold placesStore := by decide
  have hrun : (placesCall.run placesStore).outcome (run placesDeployment placesWorld placesSteps).1 =
      (.ok r, ((placesCall.run placesStore).outcome (run placesDeployment placesWorld placesSteps).1).2) := by
    rw [← hr]
  obtain ⟨numbers, hnumbers, -, hwithin⟩ := isWithin_iff (d := placesDeployment)
    (clusterLists "semindex-lookup") hempty (fun hserver => absurd rfl hserver) placesSteps
    (s := placesSettings) (c := placesCall) hpos hrun
  have hapart : TellsApart [placesLookup.keyedText, placesWritten.lookup.keyedText] := .pair fun _ => rfl
  rw [hhistory] at hwithin
  obtain ⟨earlier, rec, later, before, hsplit, -, -, -, hform, hiff, -⟩ :=
    hwithin placesLookup hlookup hapart
  rw [hhistory'] at hsplit
  obtain rfl : rec = placesWritten := List.mem_singleton.mp (hsplit ▸ by simp)
  obtain rfl : numbers = Json.ofInts [11, 12, 13] := hform.resolve_right fun hreference => by
    rw [hclause, hreference] at hnumbers
    cases hnumbers
  exact ⟨r, _, hempty, hpos, hrun, hclause, hlookup, fun hwithin => hiff.mp hwithin (by decide)⟩

end LookupStep

end FactIndex
