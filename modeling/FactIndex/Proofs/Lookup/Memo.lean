import FactIndex.Proofs.Cache.Entry
import FactIndex.Proofs.Store.Catalog

/-!
# Lookups that always have a result

Where the cache can be used, searches are answered and documents can be stored, every lookup has a
result: the numbers, or a reference to the document that holds them. It is the result of an earlier
lookup with the same key, or it has just been found.

## Main definitions

* `Numbers`: the two forms that a result takes.
* `Deployment.Remembers`: what the cache of a world holds are results with some property.
* `SearchClient.Stores`: an engine that stores every list.
* `Lookup.exists_resolve`: the result of a lookup.
-/

namespace FactIndex

open FactIndex.Digest FactIndex.Effect

variable {σ : Type}

/-! ## Results -/

/-- The result of a lookup: the numbers, or the id of the document that holds them. -/
inductive Numbers where
  | listed (ids : List Int)
  | stored (id : String)
deriving DecidableEq

namespace Numbers

/-- The result as it is used in a clause. -/
def toJson (index : String) : Numbers → Json
  | .listed ids => Json.ofInts ids
  | .stored id => Clause.reference index id "id"

/-- The name under which the result is remembered. -/
def name : Numbers → String
  | .listed _ => "ids"
  | .stored _ => "ref"

/-- The value that is remembered. -/
def remembered (index : String) (count : Int) (numbers : Numbers) : Json :=
  .obj [("count", .int count), (numbers.name, numbers.toJson index)]

/-- What is remembered can be read back from a text. -/
theorem isReadable_remembered (index : String) (count : Int) (numbers : Numbers) :
    Json.IsReadable .stored Json.argumentDepth (numbers.remembered index count) := by
  have hpair : ∀ {name value}, "count" ≠ name → Json.IsReadable .stored 989 value →
      Json.IsReadable .stored Json.argumentDepth (.obj [("count", .int count), (name, value)]) := by
    intro name value hname hvalue
    refine .obj (by simpa [Table.keys] using hname) fun m hm => ?_
    simp only [List.mem_cons, List.not_mem_nil, or_false] at hm
    rcases hm with rfl | rfl
    · exact .int count
    · exact hvalue
  cases numbers with
  | listed ids =>
      refine hpair (show "count" ≠ "ids" by decide) (.arr fun x hx => ?_)
      obtain ⟨n, -, rfl⟩ := List.mem_map.mp hx
      exact .int n
  | stored id =>
      refine hpair (show "count" ≠ "ref" by decide) (.obj (by simp [Table.keys]) fun m hm => ?_)
      simp only [List.mem_cons, List.not_mem_nil, or_false] at hm
      rcases hm with rfl | rfl | rfl <;> exact .str _

/-- What is remembered is taken for the result that it is. -/
theorem ofRemembered_remembered (l : Lookup) (index : String) (count : Int) (numbers : Numbers) :
    l.ofRemembered (numbers.remembered index count) = .ok ⟨.int count, numbers.toJson index,
      [("count", .int count), ("is_from_cache", .single "id" (.str l.id))]⟩ := by
  cases numbers <;> rfl

end Numbers

/-- The text of the key under which a result is remembered. -/
def Lookup.keyText (l : Lookup) : String :=
  scope ++ ":" ++ structuralHash (Json.ofTexts ([l.id, toString l.threshold] ++ l.dependsOn))

theorem Lookup.key_eq (l : Lookup) : l.key = .str l.keyText := rfl

/-! ## The cache -/

/-- Whatever the cache holds is the result of a lookup, of which something is known. -/
def Deployment.Remembers (d : Deployment σ) (w : World σ) (good : Lookup → Numbers → Prop) : Prop :=
  ∀ full content, w.kept d full = some content → ∃ l count numbers,
    d.cache.fullKey (.str l.keyText) = .ok full ∧
      content = d.cache.form (numbers.remembered (d.indexName IndexType.lookup) count) ∧
      good l numbers

namespace Deployment.Remembers

variable {d : Deployment σ} {w w' : World σ} {good good' : Lookup → Numbers → Prop}

/-- An empty cache holds nothing to be asked about. -/
theorem of_empty (h : ∀ full, w.kept d full = none) : d.Remembers w good := by
  intro full content hcontent
  rw [h] at hcontent
  cases hcontent

theorem mono (h : d.Remembers w good)
    (hkept : ∀ full content, w'.kept d full = some content → w.kept d full = some content)
    (hgood : ∀ l numbers, good l numbers → good' l numbers) : d.Remembers w' good' := by
  intro full content hcontent
  obtain ⟨l, count, numbers, hfull, hform, hl⟩ := h full content (hkept full content hcontent)
  exact ⟨l, count, numbers, hfull, hform, hgood l numbers hl⟩

/-- One more result is remembered. -/
theorem put (h : d.Remembers w good) {l : Lookup} {count : Int} {numbers : Numbers} {full : String}
    (hfull : d.cache.fullKey (.str l.keyText) = .ok full)
    (hself : w'.kept d full =
      some (d.cache.form (numbers.remembered (d.indexName IndexType.lookup) count)))
    (hothers : ∀ other, full ≠ other → w'.kept d other = w.kept d other)
    (hgood : ∀ l numbers, good l numbers → good' l numbers) (hnew : good' l numbers) :
    d.Remembers w' good' := by
  intro other content hcontent
  by_cases hother : full = other
  · subst hother
    rw [hself] at hcontent
    exact ⟨l, count, numbers, hfull, (Option.some.inj hcontent).symm, hnew⟩
  · rw [hothers other hother] at hcontent
    obtain ⟨l, count, numbers, hfull, hform, hl⟩ := h other content hcontent
    exact ⟨l, count, numbers, hfull, hform, hgood l numbers hl⟩

end Deployment.Remembers

/-- Looking for a result in the cache: there is none, or there is that of a lookup with the same key. -/
theorem Deployment.exists_cached (d : Deployment σ) {seconds : Float} {w : World σ}
    {good : Lookup → Numbers → Prop} (hcache : d.cache.IsUsable .waiting seconds)
    (h : d.Remembers w good) (l : Lookup) :
    ∃ r after, (d.cached? l.key).outcome w = (.ok r, after) ∧
      (∀ full content, after.kept d full = some content → w.kept d full = some content) ∧
      after.engine = w.engine ∧ after.catalog = w.catalog ∧
      (r = none ∨ ∃ l' count numbers, l'.keyText = l.keyText ∧ good l' numbers ∧
        r = some (numbers.remembered (d.indexName IndexType.lookup) count)) := by
  obtain ⟨full, hfull⟩ := d.cache.exists_fullKey l.keyText
  have hanswer := d.outcome_cached hcache hfull w
  have hworld := meets_cached (d := d) w l.key
  have hcatalog := d.keepsCatalog_cached l.key w
  rw [l.key_eq] at hworld hcatalog ⊢
  rcases houtcome : (d.cached? (.str l.keyText)).outcome w with ⟨r, after⟩
  rw [houtcome] at hanswer hcatalog
  obtain ⟨hkept, hengine⟩ := hworld.of_outcome houtcome
  cases hserved : d.cache.served (w.cache, w.host) full with
  | none =>
      rw [hserved] at hanswer
      cases hanswer
      exact ⟨none, after, rfl, hkept, hengine, hcatalog, .inl rfl⟩
  | some content =>
      obtain ⟨l', count, numbers, hfull', hform, hl'⟩ := h full content (Cache.kept_of_served hserved)
      have hread := Cache.readBack_form (c := d.cache) fun _ =>
        numbers.isReadable_remembered (d.indexName IndexType.lookup) count
      rw [hserved] at hanswer
      dsimp only at hanswer
      rw [hform, hread] at hanswer
      cases hanswer
      exact ⟨_, after, rfl, hkept, hengine, hcatalog,
        .inr ⟨l', count, numbers, Cache.fullKey_inj hfull' hfull, hl', rfl⟩⟩

/-! ## The search engine -/

/-- A search engine that stores every list. -/
structure SearchClient.Stores (client : SearchClient σ) (index : String) : Prop where
  store : ∀ s id document, ∃ answer, (client.send (.store index id document) s).1 = .ok answer
  refresh : ∀ s, ∃ answer, (client.send (.refresh index) s).1 = .ok answer

/-- The engine after a list has been stored. -/
def SearchClient.afterStoring (client : SearchClient σ) (index id : String) (ids : List Json) (s : σ) :
    σ :=
  (client.send (.refresh index) (client.send (.store index id (.single "id" (.arr ids))) s).2).2

/-- A list is stored: its document holds it. -/
theorem ListIndex.document?_afterStoring {client : SearchClient σ} {index : String}
    (L : ListIndex client index) (h : client.Stores index) (id : String) (ids : List Json) (s : σ) :
    L.document? (client.afterStoring index id ids s) id = some (.single "id" (.arr ids)) := by
  obtain ⟨answer, hanswer⟩ := h.store s id (.single "id" (.arr ids))
  have hrefresh := L.refresh (client.send (.store index id (.single "id" (.arr ids))) s).2 index
  exact (congrFun hrefresh id).trans (L.stored s id _ answer _ (Prod.ext hanswer rfl))

namespace Lookup

variable {d : Deployment σ} {w : World σ}

theorem exists_storeList (h : d.client.Stores (d.indexName IndexType.lookup)) (id : String)
    (ids : List Json) (w : World σ) : ∃ after, (storeList d id ids).outcome w =
        (.ok (Clause.reference (d.indexName IndexType.lookup) id "id"), after) ∧
      after.kept d = w.kept d ∧ after.catalog = w.catalog ∧
      after.engine = d.client.afterStoring (d.indexName IndexType.lookup) id ids w.engine := by
  let index := d.indexName IndexType.lookup
  let store := Request.store index id (.single "id" (.arr ids))
  obtain ⟨answer, hanswer⟩ := h.store w.engine id (.single "id" (.arr ids))
  obtain ⟨answer', hanswer'⟩ := h.refresh (w.asked d store).engine
  have hstore : (d.storeDocument index id (.single "id" (.arr ids))).outcome w =
      (.ok (), w.asked d store) := by
    refine (d.outcome_demand_unit store w).trans ?_
    rw [hanswer]
    rfl
  have hrefresh : (d.refresh index).outcome (w.asked d store) =
      (.ok (), (w.asked d store).asked d (.refresh index)) := by
    refine (d.outcome_demand_unit (.refresh index) _).trans ?_
    rw [hanswer']
    rfl
  refine ⟨(w.asked d store).asked d (.refresh index), ?_, kept_congr rfl rfl, rfl, rfl⟩
  unfold storeList
  dsimp only
  rw [outcome_bind_of_ok hstore, outcome_bind_of_ok hrefresh]
  rfl

/-- A result is remembered under the key of its lookup. -/
theorem exists_remember {seconds : Float} (hcache : d.cache.IsUsable .waiting seconds) (l : Lookup)
    (hlifetime : l.lifetime = seconds) (count : Int) (numbers : Numbers) (w : World σ) :
    ∃ after full, (l.remember d count numbers.name
        (numbers.toJson (d.indexName IndexType.lookup))).outcome w = (.ok (), after) ∧
      after.engine = w.engine ∧ after.catalog = w.catalog ∧
      d.cache.fullKey (.str l.keyText) = .ok full ∧
      after.kept d full =
        some (d.cache.form (numbers.remembered (d.indexName IndexType.lookup) count)) ∧
      ∀ other, full ≠ other → after.kept d other = w.kept d other := by
  have hvalue : numbers.remembered (d.indexName IndexType.lookup) count ≠ .null := nofun
  obtain ⟨full, limit, site, hput, hfull, -, -, hself, hothers⟩ :=
    Cache.outcome_put_entry hcache l.keyText hvalue (w.cache, w.host)
  rw [← hlifetime, ← l.key_eq] at hput
  refine ⟨{ w with cache := site.1, host := site.2 }, full, ?_, rfl, rfl, hfull, ?_, fun other hother => ?_⟩
  · exact congrArg (fun put : Except Failure Unit × Cache.Site =>
      (put.1, ({ w with cache := put.2.1, host := put.2.2 } : World σ))) hput
  · exact (Cache.kept_eq full).trans (congrArg (Option.map Prod.fst) hself)
  · exact (Cache.kept_eq other).trans ((congrArg (Option.map Prod.fst) (hothers other hother)).trans
      (Cache.kept_eq other).symm)

/-- The result of a search: the numbers themselves, or the document in which they are stored. -/
def resultOf (l : Lookup) (found : Found) (ids : List Int) : Numbers :=
  if l.isStored found then .stored l.id else .listed ids

/-- What a search has found is remembered. A long list is stored before. -/
theorem exists_keep {seconds : Float} {good : Lookup → Numbers → Prop}
    (hcache : d.cache.IsUsable .waiting seconds)
    (hstores : d.client.Stores (d.indexName IndexType.lookup)) (h : d.Remembers w good) (l : Lookup)
    (hlifetime : l.lifetime = seconds) (count : Int) (ids : List Int) :
    let found : Found := ⟨count, ids.map Json.int, []⟩
    ∃ after, (l.keep d found).outcome w = (.ok ⟨.int count,
        (l.resultOf found ids).toJson (d.indexName IndexType.lookup),
        [("count", .int count), ("is_from_cache", .bool false)]⟩, after) ∧
      after.catalog = w.catalog ∧
      after.engine = (if l.isStored found then
        d.client.afterStoring (d.indexName IndexType.lookup) l.id found.ids w.engine else w.engine) ∧
      ∀ good' : Lookup → Numbers → Prop, (∀ l numbers, good l numbers → good' l numbers) →
        good' l (l.resultOf found ids) → d.Remembers after good' := by
  intro found
  unfold keep resultOf
  dsimp only
  cases hlong : l.isStored found with
  | true =>
      obtain ⟨stored, hstore, hkept, hcatalog, hengine⟩ := exists_storeList hstores l.id found.ids w
      obtain ⟨after, full, hremember, hengine', hcatalog', hfull, hself, hothers⟩ :=
        exists_remember hcache l hlifetime count (.stored l.id) stored
      refine ⟨after, ?_, hcatalog'.trans hcatalog, hengine'.trans hengine, fun good' hmono hnew => ?_⟩
      · rw [if_pos rfl, outcome_bind_of_ok hstore]
        exact outcome_bind_of_ok hremember _
      · exact h.put hfull hself (fun other hne => by rw [hothers other hne, hkept]) hmono hnew
  | false =>
      obtain ⟨after, full, hremember, hengine, hcatalog, hfull, hself, hothers⟩ :=
        exists_remember hcache l hlifetime count (.listed ids) w
      refine ⟨after, ?_, hcatalog, hengine, fun good' hmono hnew =>
        h.put hfull hself hothers hmono hnew⟩
      exact outcome_bind_of_ok hremember _

/-- Every lookup has a result. It was remembered for the key, which the record tells, or it is found by a
search and remembered from now on. -/
theorem exists_resolve {seconds : Float} {good : Lookup → Numbers → Prop} {request : Request}
    {finds : Int → List Int → Prop} (hcache : d.cache.IsUsable .waiting seconds)
    (hstores : d.client.Stores (d.indexName IndexType.lookup)) (h : d.Remembers w good) (l : Lookup)
    (hlifetime : l.lifetime = seconds)
    (hfind : ∀ w' : World σ, w'.engine = w.engine → ∃ count ids,
      (l.find d).outcome w' = (.ok ⟨count, ids.map Json.int, []⟩, w'.asked d request) ∧
        finds count ids) :
    ∃ count numbers record after, (l.resolve d).outcome w =
        (.ok ⟨.int count, numbers.toJson (d.indexName IndexType.lookup), record⟩, after) ∧
      Table.get? record "count" = some (.int count) ∧ Table.get? record "errors" = none ∧
      after.catalog = w.catalog ∧ (Table.get? record "is_from_cache" = some (.single "id" (.str l.id)) ∧
          (∃ l', l'.keyText = l.keyText ∧ good l' numbers ∧ after.engine = w.engine ∧
            d.Remembers after good) ∨
        Table.get? record "is_from_cache" = some (.bool false) ∧
          ∃ ids, finds count ids ∧ numbers = l.resultOf ⟨count, ids.map Json.int, []⟩ ids ∧
          after.engine = (if l.isStored ⟨count, ids.map Json.int, []⟩ then
            d.client.afterStoring (d.indexName IndexType.lookup) l.id (ids.map Json.int)
              (d.client.send request w.engine).2 else (d.client.send request w.engine).2) ∧
          ∀ good' : Lookup → Numbers → Prop, (∀ l numbers, good l numbers → good' l numbers) →
            good' l numbers → d.Remembers after good') := by
  obtain ⟨r, looked, hcached, hkept, hengine, hcatalog, hr⟩ := d.exists_cached hcache h l
  have hlooked : d.Remembers looked good := h.mono hkept fun _ _ hl => hl
  unfold resolve
  rw [outcome_bind_of_ok hcached]
  rcases hr with rfl | ⟨l', count, numbers, hkey, hl', rfl⟩
  · obtain ⟨count, ids, hsearch, hfinds⟩ := hfind looked hengine
    have hasked : d.Remembers (looked.asked d request) good :=
      hlooked.mono (fun full content hcontent => by rwa [kept_congr rfl rfl] at hcontent)
        fun _ _ hl => hl
    obtain ⟨after, hkeep, hcatalog', hengine', hremembers⟩ :=
      exists_keep hcache hstores hasked l hlifetime count ids
    refine ⟨count, _, [("count", .int count), ("is_from_cache", .bool false)], after, ?_,
      by simp [Table.get?], by simp [Table.get?], hcatalog'.trans hcatalog,
      .inr ⟨by simp [Table.get?], ids, hfinds, rfl, ?_, hremembers⟩⟩
    · show (l.materialize d).outcome looked = _
      unfold materialize
      rw [outcome_bind_of_ok hsearch]
      exact hkeep
    · rw [hengine', World.asked_engine, hengine]
  · refine ⟨count, numbers, [("count", .int count), ("is_from_cache", .single "id" (.str l.id))],
      looked, ?_, by simp [Table.get?], by simp [Table.get?], hcatalog,
      .inl ⟨by simp [Table.get?], l', hkey, hl', hengine, hlooked⟩⟩
    dsimp only
    rw [if_neg (by rintro ⟨⟩), numbers.ofRemembered_remembered, outcome_ofExcept]

end Lookup

end FactIndex
