import FactIndex.Proofs.Lookup.Exact

/-!
# What lookups in a row come to

Each lookup is for a query, which may ask for lists that earlier lookups have stored. What it comes to is
settled if no two lookups share a key or a document and if no search finds more than it asks for: as
long as the stored lists are in place the query selects the same documents, and the cache and the lists
stand for what the queries select.

## Main definitions

* `Settled`: a lookup that has been made, with what it comes to.
* `ExactEngine.InPlace`: the lists that lookups have stored are there.
* `ExactEngine.AmountsTo`, `ExactEngine.Denotes`: what a query selects, and what a result stands for, as
  long as they are.
* `ExactEngine.Sound`: cache and lists stand for what lookups come to, under a condition.
* `ExactEngine.Sound.exists_resolve`: one more lookup.
-/

namespace FactIndex

open FactIndex.Effect

variable {σ : Type}

/-- A lookup that has been made. -/
structure Settled where
  lookup : Lookup
  /-- The numbers that it comes to. -/
  result : Int → Prop
  /-- Whether it has stored them as a document. -/
  isStored : Bool

namespace ExactEngine

variable {d : Deployment σ} (E : ExactEngine d) {made : List Settled} {a : Settled}

/-- The lists that lookups have stored are there. -/
def InPlace (s : σ) (made : List Settled) : Prop :=
  ∀ a ∈ made, a.isStored = true → E.Lists s (.stored a.lookup.id) a.result

/-- Among given documents a query selects these, as long as the stored lists are there. -/
def AmountsTo (docs : List (Int × Indexed)) (made : List Settled) (query : Json)
    (result : Int → Prop) : Prop :=
  ∀ s, E.docs s = docs → E.InPlace s made → ∀ n, E.Selected s query n ↔ result n

/-- A result stands for these numbers, as long as the stored lists are there. -/
def Denotes (made : List Settled) (numbers : Numbers) (result : Int → Prop) : Prop :=
  ∀ s, E.InPlace s made → E.Lists s numbers result

variable {E} {s : σ} {docs : List (Int × Indexed)} {query : Json} {numbers : Numbers}
  {result : Int → Prop}

theorem InPlace.of_subset {made' : List Settled} (h : E.InPlace s made') (hsub : made ⊆ made') :
    E.InPlace s made := fun b hb => h b (hsub hb)

theorem InPlace.of_append (h : E.InPlace s (made ++ [a])) : E.InPlace s made :=
  h.of_subset (List.subset_append_left _ _)

theorem AmountsTo.append (h : E.AmountsTo docs made query result) (a : Settled) :
    E.AmountsTo docs (made ++ [a]) query result := fun s hs hin => h s hs hin.of_append

theorem Denotes.append (h : E.Denotes made numbers result) (a : Settled) :
    E.Denotes (made ++ [a]) numbers result := fun s hin => h s hin.of_append

/-- A list that has just been listed stands for itself. -/
theorem denotes_listed {ids : List Int} (h : ∀ n, n ∈ ids ↔ result n) :
    E.Denotes made (.listed ids) result := fun _ _ => E.lists_listed.mpr h

/-- A result of its own document. -/
theorem denotes_stored (l : Lookup) (result : Int → Prop) :
    E.Denotes (made ++ [⟨l, result, true⟩]) (.stored l.id) result :=
  fun _ hin => hin ⟨l, result, true⟩ (by simp) rfl

variable (E) in
/-- Cache and lists stand for what the lookups come to that have been made. All that is said of results
is said under a condition. -/
structure Sound (docs : List (Int × Indexed)) (cond : Prop) (w : World σ) (made : List Settled) :
    Prop where
  docs_eq : E.docs w.engine = docs
  remembers : d.Remembers w fun l numbers =>
    ∃ a ∈ made, a.lookup = l ∧ (cond → E.Denotes made numbers a.result)
  inPlace : cond → E.InPlace w.engine made
  amounts : cond → ∀ a ∈ made, ∃ query source, a.lookup.body = d.lookupBody query source ∧
    E.AmountsTo docs made query a.result

namespace Sound

variable {cond cond' : Prop} {w w' : World σ}

/-- With an empty cache, nothing has been made so far. -/
theorem of_empty (hdocs : E.docs w.engine = docs) (h : ∀ full, w.kept d full = none) :
    E.Sound docs cond w [] where
  docs_eq := hdocs
  remembers := Deployment.Remembers.of_empty h
  inPlace _ := by simp [InPlace]
  amounts _ := by simp

/-- What concerns neither the cache nor the engine. -/
theorem congr (h : E.Sound docs cond w made) (hkept : w'.kept d = w.kept d)
    (hengine : w'.engine = w.engine) : E.Sound docs cond w' made where
  docs_eq := by rw [hengine, h.docs_eq]
  remembers := h.remembers.mono (fun full content hcontent => by rwa [hkept] at hcontent)
    fun _ _ hgood => hgood
  inPlace hcond := by
    rw [hengine]
    exact h.inPlace hcond
  amounts := h.amounts

/-- Less is said under a stronger condition. -/
theorem mono (h : E.Sound docs cond w made) (hmono : cond' → cond) : E.Sound docs cond' w made where
  docs_eq := h.docs_eq
  remembers := h.remembers.mono (fun _ _ hcontent => hcontent) fun _ _ ⟨a, ha, hl, hdenotes⟩ =>
    ⟨a, ha, hl, fun hcond' => hdenotes (hmono hcond')⟩
  inPlace hcond' := h.inPlace (hmono hcond')
  amounts hcond' := h.amounts (hmono hcond')

/-- Two lookups for the same query come to the same. -/
theorem result_eq (h : E.Sound docs cond w made) (hcond : cond) {a : Settled} (ha : a ∈ made)
    {source : Json} (hbody : a.lookup.body = d.lookupBody query source)
    (hresult : E.AmountsTo docs made query result) : a.result = result := by
  obtain ⟨query', source', hbody', hamounts⟩ := h.amounts hcond a ha
  have hquery : query' = query := by
    rw [hbody'] at hbody
    simp only [Deployment.lookupBody, List.cons.injEq, Prod.mk.injEq, true_and, and_true] at hbody
    exact hbody.2
  subst hquery
  funext n
  rw [← hamounts w.engine h.docs_eq (h.inPlace hcond) n,
    ← hresult w.engine h.docs_eq (h.inPlace hcond) n]

/-- What is known of a result goes on being known when one more lookup has been made. -/
theorem good_append {l : Lookup} (hmono : cond' → cond) (b : Settled)
    (h : ∃ a ∈ made, a.lookup = l ∧ (cond → E.Denotes made numbers a.result)) :
    ∃ a ∈ made ++ [b], a.lookup = l ∧ (cond' → E.Denotes (made ++ [b]) numbers a.result) := by
  obtain ⟨a, ha, hl, hdenotes⟩ := h
  exact ⟨a, List.mem_append_left _ ha, hl, fun hcond' => (hdenotes (hmono hcond')).append b⟩

/-- One more lookup has been made. A list that it has stored takes the place of none that holds
anything else. -/
theorem append (h : E.Sound docs cond w made) (hmono : cond' → cond) (b : Settled) {source : Json}
    (hbody : b.lookup.body = d.lookupBody query source)
    (hresult : cond → E.AmountsTo docs made query b.result)
    (hdocs : E.docs w'.engine = E.docs w.engine)
    (hremembers : d.Remembers w' fun l numbers =>
      ∃ a ∈ made ++ [b], a.lookup = l ∧ (cond' → E.Denotes (made ++ [b]) numbers a.result))
    (hothers : ∀ id, (b.isStored = true → b.lookup.id ≠ id) →
      E.document? w'.engine id = E.document? w.engine id)
    (hself : cond' → b.isStored = true → E.Lists w'.engine (.stored b.lookup.id) b.result)
    (hsame : cond' → ∀ a ∈ made, a.lookup.id = b.lookup.id → a.result = b.result) :
    E.Sound docs cond' w' (made ++ [b]) where
  docs_eq := hdocs.trans h.docs_eq
  remembers := hremembers
  inPlace := by
    intro hcond' a ha hstored
    rcases List.mem_append.mp ha with ha | ha
    · by_cases hid : b.isStored = true ∧ b.lookup.id = a.lookup.id
      · rw [hsame hcond' a ha hid.2.symm, ← hid.2]
        exact hself hcond' hid.1
      · have hkept := hothers a.lookup.id fun hb heq => hid ⟨hb, heq⟩
        intro v
        rw [← h.inPlace (hmono hcond') a ha hstored v]
        simp only [values, hkept]
    · obtain rfl := List.mem_singleton.mp ha
      exact hself hcond' hstored
  amounts := by
    intro hcond' a ha
    rcases List.mem_append.mp ha with ha | ha
    · obtain ⟨query, source, hbody, hamounts⟩ := h.amounts (hmono hcond') a ha
      exact ⟨query, source, hbody, hamounts.append _⟩
    · obtain rfl := List.mem_singleton.mp ha
      exact ⟨query, source, hbody, (hresult (hmono hcond')).append _⟩

/-- One more lookup has a result. If it shares no key and no document with one that comes to something
else, and if no more is found than is asked for, then the result stands for what its query selects. -/
theorem exists_resolve {seconds : Float} (hcache : d.cache.IsUsable .waiting seconds)
    (h : E.Sound docs cond w made) {l : Lookup} {source : Json}
    (hbody : l.body = d.lookupBody query source) (hfield : l.field = none)
    (hlifetime : l.lifetime = seconds) (hresult : cond → E.AmountsTo docs made query result) :
    ∃ count numbers record after isStored, (l.resolve d).outcome w =
        (.ok ⟨.int count, numbers.toJson (d.indexName IndexType.lookup), record⟩, after) ∧
      Table.get? record "count" = some (.int count) ∧ after.catalog = w.catalog ∧
      ∀ cond' : Prop, (cond' → cond) → (cond' → count ≤ d.settings.subquery.size) →
        (cond' → ∀ a ∈ made, a.lookup.keyText = l.keyText ∨ a.lookup.id = l.id →
          a.result = result) →
        E.Sound docs cond' after (made ++ [⟨l, result, isStored⟩]) ∧
          (cond' → E.Denotes (made ++ [⟨l, result, isStored⟩]) numbers result) := by
  have hfind : ∀ w' : World σ, w'.engine = w.engine → ∃ count, ∃ ids : List Int,
      (l.find d).outcome w' =
          (.ok ⟨count, ids.map Json.int, []⟩, w'.asked d (request d query source)) ∧
        (∀ n ∈ ids, E.Selected w.engine query n) ∧
        (count ≤ d.settings.subquery.size → ∀ n, E.Selected w.engine query n → n ∈ ids) := by
    intro w' hw'
    rw [← hw']
    exact ⟨_, E.exists_find hbody hfield w'⟩
  obtain ⟨count, numbers, record, after, houtcome, hcount, -, hcatalog, hcases⟩ :=
    l.exists_resolve hcache E.stores h.remembers hlifetime hfind
  rcases hcases with ⟨-, l', hkey, ⟨a, ha, rfl, hdenotes⟩, hengine, hremembers⟩ |
    ⟨-, ids, ⟨hsound, hall⟩, rfl, hengine, hremembers⟩
  · refine ⟨count, numbers, record, after, false, houtcome, hcount, hcatalog,
      fun cond' hmono _ hapart => ⟨?_, fun hcond' => ?_⟩⟩
    · refine h.append hmono _ hbody hresult (by rw [hengine]) ?_ (fun id _ => by rw [hengine])
        (fun _ hstored => nomatch hstored) fun hcond' b hb hid => ?_
      · exact hremembers.mono (fun _ _ hcontent => hcontent) fun _ _ => good_append hmono _
      · exact hapart hcond' b hb (.inr hid)
    · rw [← hapart hcond' a ha (.inl hkey)]
      exact (hdenotes (hmono hcond')).append _
  · have hids : ∀ {cond' : Prop}, (cond' → cond) → (cond' → count ≤ d.settings.subquery.size) →
        cond' → ∀ n, n ∈ ids ↔ result n := by
      intro cond' hmono hsize hcond' n
      rw [← hresult (hmono hcond') w.engine h.docs_eq (h.inPlace (hmono hcond')) n]
      exact ⟨hsound n, hall (hsize hcond') n⟩
    have hdocs := E.docs_search w.engine (d.indexName IndexType.data)
      [("source", source), ("query", query), ("size", .int d.settings.subquery.size)]
    have hlists := congrFun (E.search w.engine (d.indexName IndexType.data)
      [("source", source), ("query", query), ("size", .int d.settings.subquery.size)])
    unfold Lookup.resultOf at houtcome hremembers
    cases hlong : l.isStored ⟨count, ids.map Json.int, []⟩ with
    | false =>
        rw [hlong, if_neg Bool.false_ne_true] at houtcome hengine hremembers
        refine ⟨count, .listed ids, record, after, false, houtcome, hcount, hcatalog,
          fun cond' hmono hsize hapart => ⟨?_, fun hcond' => denotes_listed (hids hmono hsize hcond')⟩⟩
        refine h.append hmono _ hbody hresult ?_ ?_ (fun id _ => ?_)
          (fun _ hstored => nomatch hstored) fun hcond' b hb hid => ?_
        · rw [hengine]
          exact hdocs
        · refine hremembers _ (fun _ _ => good_append hmono _) ⟨_, List.mem_append_right _
            (List.mem_singleton_self _), rfl, fun hcond' => denotes_listed (hids hmono hsize hcond')⟩
        · rw [hengine]
          exact hlists id
        · exact hapart hcond' b hb (.inr hid)
    | true =>
        obtain ⟨hself, hothers, hkeeps⟩ := E.document?_afterStoring l.id (ids.map Json.int)
          (d.client.send (request d query source) w.engine).2
        rw [hlong, if_pos rfl] at houtcome hengine hremembers
        refine ⟨count, .stored l.id, record, after, true, houtcome, hcount, hcatalog,
          fun cond' hmono hsize hapart => ⟨?_, fun _ => denotes_stored l result⟩⟩
        refine h.append hmono _ hbody hresult ?_ ?_ (fun id hid => ?_) (fun hcond' _ => ?_)
          fun hcond' b hb hid => ?_
        · rw [hengine, hkeeps]
          exact hdocs
        · exact hremembers _ (fun _ _ => good_append hmono _) ⟨_, List.mem_append_right _
            (List.mem_singleton_self _), rfl, fun _ => denotes_stored l result⟩
        · rw [hengine, hothers id (hid rfl)]
          exact hlists id
        · rw [hengine]
          exact (E.lists_stored hself).mpr (hids hmono hsize hcond')
        · exact hapart hcond' b hb (.inr hid)

end Sound

end ExactEngine

end FactIndex
