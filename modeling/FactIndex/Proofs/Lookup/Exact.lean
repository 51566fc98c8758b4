import FactIndex.Proofs.Decimal.Written
import FactIndex.Proofs.Lookup.Memo
import FactIndex.Proofs.Search.Matching
import FactIndex.Search.Hits

/-!
# Searches that are answered exactly

An answer to a search says how many documents were found and gives the names of some of them. What is
read of such an answer is that number, and the numbers that the names stand for.

An engine is exact if the answer to a search reports the documents that the query selects: all of them,
if no more are found than were asked for. A reference to a stored list stands for what the list holds at
the time of the search.

An archive is an engine that answers exactly. It keeps documents with their numbers, and the lists that
are stored. It answers a search by going through the documents one by one: it says how many the query
selects, and names as many of them as were asked for. Values compare only by equality.

## Main definitions

* `Hits.Reports`: an answer that reports a number of documents and some of their names.
* `Hits.total_of_reports`, `Hits.numbers_of_reports`: what is read of it.
* `ExactEngine`: what is known of an engine that is exact.
* `ExactEngine.matching`, `ExactEngine.Selected`: what a query selects in a state of the engine.
* `ExactEngine.exists_find`: what the search for a lookup finds.
* `ExactEngine.Lists`, `ExactEngine.holds_hasNumber`: the numbers behind a result, and the clause that
  asks for them.
* `Archive`: the documents and the stored lists of an archive.
* `Archive.client`, `Archive.deployment`: the archive as a search engine, and a store that uses it.
* `Archive.exact`: it answers exactly.
-/

namespace FactIndex.Hits

/-! ## What an answer reports -/

/-- An answer says how many documents were found, and names some of them. -/
structure Reports (answer : Json) (count : Nat) (named : List Int) : Prop where
  count : ((answer.get? "hits").bind (·.get? "total")).bind (·.get? "value") = some (.int count)
  named : ∃ items, (answer.get? "hits").bind (·.get? "hits") = some (.arr items) ∧
    items.map (·.get? "_id") = named.map fun n => some (.str (toString n))

theorem exists_members {value found : Json} {key : String} (h : value.get? key = some found) :
    ∃ ms, value = .obj ms ∧ Table.get? ms key = some found := by
  cases value with
  | obj ms => exact ⟨ms, rfl, h⟩
  | null | bool | int | float | str | arr => cases h

theorem memberOf_of_get? {value found : Json} {key : String} (h : value.get? key = some found)
    (default : Json) : memberOf value key default = .ok found := by
  obtain ⟨ms, rfl, hget⟩ := exists_members h
  simp [memberOf, hget]

/-- A name that is a number is read as that number. -/
theorem numberOf_toString (n : Int) : numberOf (.str (toString n)) = .ok (.int n) := by
  have hwhole : (Json.str (toString n)).toWhole = .ok n := by
    have hread := Decimal.argumentInt?_toString n
    simp only [Json.toWhole, hread]
  unfold numberOf
  rw [hwhole]

/-- A document with the name of a number. -/
theorem numberOf_nameOf {item : Json} {n : Int} (h : item.get? "_id" = some (.str (toString n))) :
    (do numberOf (← nameOf item)) = .ok (.int n) := by
  obtain ⟨ms, rfl, hget⟩ := exists_members h
  show (nameOf (.obj ms) >>= numberOf) = _
  simp only [nameOf, hget]
  exact numberOf_toString n

/-- By induction on the items: the numbers that are read are those of the names. -/
theorem mapM_numberOf {items : List Json} {named : List Int}
    (h : items.map (·.get? "_id") = named.map fun n => some (.str (toString n))) :
    (items.mapM fun hit => do numberOf (← nameOf hit)) = .ok (named.map Json.int) := by
  induction items generalizing named with
  | nil =>
      cases named with
      | nil => rfl
      | cons n named => cases h
  | cons item items ih =>
      cases named with
      | nil => cases h
      | cons n named =>
          rw [List.map_cons, List.map_cons, List.cons.injEq] at h
          rw [List.mapM_cons, numberOf_nameOf h.1, ih h.2]
          rfl

namespace Reports

variable {answer : Json} {count : Nat} {named : List Int}

/-- An answer that reports something is an object with a part about documents. -/
theorem exists_of (h : Reports answer count named) : ∃ ms hits, answer = .obj ms ∧ Hits.of ms = hits ∧
    (∃ total, hits.get? "total" = some total ∧ total.get? "value" = some (.int count)) ∧
    ∃ items, hits.get? "hits" = some (.arr items) ∧
      items.map (·.get? "_id") = named.map fun n => some (.str (toString n)) := by
  obtain ⟨total, htotal, hvalue⟩ := Option.bind_eq_some_iff.mp h.count
  obtain ⟨hits, hhits, htotal⟩ := Option.bind_eq_some_iff.mp htotal
  obtain ⟨items, hitems, hnamed⟩ := h.named
  obtain ⟨ms, rfl, hget⟩ := Hits.exists_members hhits
  rw [hhits] at htotal hitems
  exact ⟨ms, hits, rfl, by simp [Hits.of, hget], ⟨total, htotal, hvalue⟩, items, hitems, hnamed⟩

/-- What is read of the answer: the number of documents, and those that are named. -/
theorem exists_members (h : Reports answer count named) : ∃ ms, answer = .obj ms ∧
    Hits.total (Hits.of ms) = .ok (count : Int) ∧
    Hits.numbers (Hits.of ms) = .ok (named.map Json.int) := by
  obtain ⟨ms, hits, rfl, hof, ⟨total, htotal, hvalue⟩, items, hitems, hnamed⟩ := h.exists_of
  refine ⟨ms, rfl, ?_, ?_⟩
  · obtain ⟨ts, rfl, hget⟩ := Hits.exists_members hvalue
    rw [hof]
    unfold Hits.total
    rw [memberOf_of_get? htotal]
    simp [Bind.bind, Except.bind, hget, Json.toWhole]
  · rw [hof]
    unfold Hits.numbers Hits.list
    rw [memberOf_of_get? hitems]
    exact mapM_numberOf hnamed

end Reports

end FactIndex.Hits

namespace FactIndex

open FactIndex.Effect

/-! ## Exact engines -/

variable {σ : Type}

/-- The numbers in a document that holds a list. -/
def listed (document : Option Json) : List Json :=
  match document.bind (·.get? "id") with
  | some (.arr ids) => ids
  | _ => []

/-- What is known of a search engine that answers exactly. Its documents are those of the index of data;
the lists are documents of another index. No search changes any of them, and storing a list changes
no document. -/
structure ExactEngine (d : Deployment σ) extends
    ListIndex d.client (d.indexName IndexType.lookup) where
  /-- The documents, each with its number. -/
  docs : σ → List (Int × Indexed)
  /-- How values compare. -/
  base : Matching
  /-- What a reference stands for. -/
  resolve : σ → Json → List Json
  resolve_reference : ∀ s id,
    resolve s (Clause.reference (d.indexName IndexType.lookup) id "id") = listed (document? s id)
  answers : ∀ s source query size, ∃ answer count named,
    (d.client.send (.search (d.indexName IndexType.data)
        [("source", source), ("query", query), ("size", .int size)]) s).1 = .ok answer ∧
      Hits.Reports answer count named ∧
      count = ((docs s).filter fun x =>
        Clause.holds { base with stored := resolve s } x.2 query).length ∧
      (∀ n ∈ named, ∃ doc, (n, doc) ∈ docs s ∧
        Clause.holds { base with stored := resolve s } doc query = true) ∧
      ((count : Int) ≤ size → ∀ n doc, (n, doc) ∈ docs s →
        Clause.holds { base with stored := resolve s } doc query = true → n ∈ named)
  stores : d.client.Stores (d.indexName IndexType.lookup)
  docs_search : ∀ s name options, docs (d.client.send (.search name options) s).2 = docs s
  docs_store : ∀ s id document,
    docs (d.client.send (.store (d.indexName IndexType.lookup) id document) s).2 = docs s
  docs_refresh : ∀ s, docs (d.client.send (.refresh (d.indexName IndexType.lookup)) s).2 = docs s

namespace ExactEngine

variable {d : Deployment σ} (E : ExactEngine d)

/-- How the engine compares in a state. -/
def matching (s : σ) : Matching := { E.base with stored := E.resolve s }

/-- A query selects the document with a number. -/
def Selected (s : σ) (query : Json) (n : Int) : Prop :=
  ∃ doc, (n, doc) ∈ E.docs s ∧ Clause.holds (E.matching s) doc query = true

/-! ## Searching -/

/-- The request that the search for a lookup sends. -/
def request (d : Deployment σ) (query source : Json) : Request :=
  .search (d.indexName IndexType.data)
    [("source", source), ("query", query), ("size", .int d.settings.subquery.size)]

/-- A query selects a document. -/
def selects (s : σ) (query : Json) (x : Int × Indexed) : Bool :=
  Clause.holds (E.matching s) x.2 query

/-- How many documents a query selects. -/
def count (s : σ) (query : Json) : Nat := ((E.docs s).filter (E.selects s query)).length

/-- The search for a lookup finds what the lookup reads off the answer of the engine. -/
theorem find_of_members {l : Lookup} {query source : Json} {ms : Members} {found : Int × List Json}
    {w : World σ} (hbody : l.body = d.lookupBody query source)
    (hanswer : (d.client.send (request d query source) w.engine).1 = .ok (.obj ms))
    (hfound : l.ofAnswer ms = .ok found) : (l.find d).outcome w =
      (.ok ⟨found.1, found.2, []⟩, w.asked d (request d query source)) := by
  have hoptions : l.body.map (fun m => (Deployment.optionName m.1, m.2)) =
      [("source", source), ("query", query), ("size", .int d.settings.subquery.size)] := by
    rw [hbody]
    rfl
  have hsearch : (d.search (d.indexName IndexType.data) l.body).outcome w =
      (.ok (ms, []), w.asked d (request d query source)) := by
    unfold Deployment.search
    rw [hoptions, outcome_bind_of_ok (outcome_ask d _ w)]
    unfold request at hanswer
    rw [hanswer]
    rfl
  unfold Lookup.find
  rw [outcome_bind_of_ok hsearch]
  dsimp only
  rw [hfound]
  rfl

/-- The search for a lookup of documents finds what the answer of the engine reports. -/
theorem find_of_reports {l : Lookup} {query source answer : Json} {count : Nat} {named : List Int}
    {w : World σ} (hbody : l.body = d.lookupBody query source) (hfield : l.field = none)
    (hanswer : (d.client.send (request d query source) w.engine).1 = .ok answer)
    (hreports : Hits.Reports answer count named) : (l.find d).outcome w =
      (.ok ⟨count, named.map Json.int, []⟩, w.asked d (request d query source)) := by
  obtain ⟨ms, rfl, htotal, hnumbers⟩ := hreports.exists_members
  have hfound : l.ofAnswer ms = .ok ((count : Int), named.map Json.int) := by
    unfold Lookup.ofAnswer
    dsimp only
    rw [htotal, hfield, hnumbers]
    rfl
  exact find_of_members hbody hanswer hfound

/-- The search for a lookup finds documents that its query selects, and all of them if they are no
more than were asked for. It tells how many they are in all. -/
theorem exists_find {l : Lookup} {query source : Json} (hbody : l.body = d.lookupBody query source)
    (hfield : l.field = none) (w : World σ) : ∃ ids : List Int,
      (l.find d).outcome w =
        (.ok ⟨E.count w.engine query, ids.map Json.int, []⟩, w.asked d (request d query source)) ∧
      (∀ n ∈ ids, E.Selected w.engine query n) ∧
      (E.count w.engine query ≤ d.settings.subquery.size → ∀ n, E.Selected w.engine query n → n ∈ ids) := by
  obtain ⟨answer, count, named, hanswer, hreports, rfl, hsound, hall⟩ :=
    E.answers w.engine source query d.settings.subquery.size
  exact ⟨named, find_of_reports hbody hfield hanswer hreports, hsound,
    fun hcount n ⟨doc, hmem, hholds⟩ => hall hcount n doc hmem hholds⟩

/-! ## Lists -/

/-- What is behind a result. -/
def values (s : σ) : Numbers → List Json
  | .listed ids => ids.map Json.int
  | .stored id => listed (E.document? s id)

/-- Behind a result are these numbers. -/
def Lists (s : σ) (numbers : Numbers) (result : Int → Prop) : Prop :=
  ∀ v, v ∈ E.values s numbers ↔ ∃ n, result n ∧ v = .int n

theorem lists_listed {s : σ} {ids : List Int} {result : Int → Prop} :
    E.Lists s (.listed ids) result ↔ ∀ n, n ∈ ids ↔ result n := by
  constructor
  · intro h n
    have hn := h (.int n)
    simpa [values] using hn
  · intro h v
    simp only [values, List.mem_map, h]
    exact exists_congr fun n => and_congr_right fun _ => eq_comm

theorem lists_stored {s : σ} {id : String} {ids : List Int} {result : Int → Prop}
    (h : E.document? s id = some (.single "id" (.arr (ids.map Json.int)))) :
    E.Lists s (.stored id) result ↔ ∀ n, n ∈ ids ↔ result n := by
  rw [← E.lists_listed (s := s)]
  have hvalues : E.values s (.stored id) = E.values s (.listed ids) := by
    simp only [values, h]
    rfl
  unfold Lists
  rw [hvalues]

/-- A list is stored: its document holds it, and no other list has changed. -/
theorem document?_afterStoring (id : String) (ids : List Json) (s : σ) :
    let after := d.client.afterStoring (d.indexName IndexType.lookup) id ids s
    E.document? after id = some (.single "id" (.arr ids)) ∧
      (∀ other, id ≠ other → E.document? after other = E.document? s other) ∧
      E.docs after = E.docs s := by
  intro after
  have hrefresh := E.refresh (d.client.send (.store (d.indexName IndexType.lookup) id
    (.single "id" (.arr ids))) s).2 (d.indexName IndexType.lookup)
  refine ⟨E.toListIndex.document?_afterStoring E.stores id ids s, fun other hne => ?_,
    (E.docs_refresh _).trans (E.docs_store s id _)⟩
  exact (congrFun hrefresh other).trans (E.store_other s id _ other hne)

/-- The result of a search stands for the numbers that were found, once a long list has been stored. -/
theorem lists_resultOf (l : Lookup) (count : Int) {ids : List Int} {result : Int → Prop}
    (hids : ∀ n, n ∈ ids ↔ result n) (s : σ) :
    let found : Found := ⟨count, ids.map Json.int, []⟩
    let after := if l.isStored found then
      d.client.afterStoring (d.indexName IndexType.lookup) l.id found.ids s else s
    E.Lists after (l.resultOf found ids) result ∧ E.docs after = E.docs s := by
  intro found after
  obtain ⟨hself, -, hdocs⟩ := E.document?_afterStoring l.id found.ids s
  simp only [after]
  unfold Lookup.resultOf
  cases l.isStored found with
  | true => exact ⟨(E.lists_stored hself).mpr hids, hdocs⟩
  | false => exact ⟨E.lists_listed.mpr hids, rfl⟩

/-- To ask for the numbers behind a result is to ask for one of them. -/
theorem holds_terms {s : σ} {numbers : Numbers} {result : Int → Prop} (h : E.Lists s numbers result)
    (field : String) (doc : Indexed) : Clause.holds (E.matching s) doc
        (Clause.terms field (numbers.toJson (d.indexName IndexType.lookup))) = true ↔
      ∃ n, result n ∧ E.base.hasValue doc field (.int n) = true := by
  have hvalues : Clause.holds (E.matching s) doc
      (Clause.terms field (numbers.toJson (d.indexName IndexType.lookup))) =
        (E.values s numbers).any (E.base.hasValue doc field) := by
    cases numbers with
    | listed ids => exact Clause.holds_terms _ _ _ _
    | stored id =>
        have hreference := E.resolve_reference s id
        simp only [Numbers.toJson, Clause.reference] at hreference ⊢
        simp only [Clause.terms, Clause.several, Json.single, Clause.holds, Matching.leaf]
        exact congrArg (fun values : List Json => values.any (E.base.hasValue doc field)) hreference
  rw [hvalues, List.any_eq_true]
  constructor
  · rintro ⟨v, hv, hvalue⟩
    obtain ⟨n, hn, rfl⟩ := (h v).mp hv
    exact ⟨n, hn, hvalue⟩
  · rintro ⟨n, hn, hvalue⟩
    exact ⟨.int n, (h _).mpr ⟨n, hn, rfl⟩, hvalue⟩

/-- The clause that asks for the numbers of a result selects the documents with one of them. -/
theorem holds_hasNumber {s : σ} {numbers : Numbers} {result : Int → Prop}
    (h : E.Lists s numbers result) (field : String) (doc : Indexed) :
    Clause.holds (E.matching s) doc
        (d.hasNumber field (numbers.toJson (d.indexName IndexType.lookup))) = true ↔
      ∃ n, result n ∧ E.base.hasValue doc field (.int n) = true := by
  rw [← E.holds_terms h]
  unfold Deployment.hasNumber
  dsimp only
  split
  · rw [Clause.holds_constantScore]
  · rfl

end ExactEngine

/-! ## Archives -/

/-- Documents with their numbers, and the stored lists. -/
structure Archive where
  docs : List (Int × Indexed)
  lists : Table String Json := []

namespace Archive

/-- Values are equal or they are not. -/
def base : Matching where
  compares c v w := c = .eq && v == w
  stored _ := []
  other _ _ _ := false

/-- What a reference stands for. -/
def resolve (a : Archive) (reference : Json) : List Json :=
  match reference.get? "id" with
  | some (.str id) => listed (a.lists.get? id)
  | _ => []

/-- The numbers of the documents that a query selects. -/
def selected (a : Archive) (query : Json) : List Int :=
  (a.docs.filter fun x => Clause.holds { base with stored := a.resolve } x.2 query).map (·.1)

/-- The answer that reports a number of documents and the first of them. -/
def report (found : List Int) (size : Int) : Json :=
  .single "hits" (.obj [("total", .single "value" (.int found.length)),
    ("hits", .arr ((found.take size.toNat).map fun n => .single "_id" (.str (toString n))))])

/-- The answer to a search. -/
def search (a : Archive) (options : Members) : Json :=
  match Table.get? options "query", Table.get? options "size" with
  | some query, some (.int size) => report (a.selected query) size
  | _, _ => .obj []

/-- The answer to a request, and the archive after it. -/
def answer (r : Request) (a : Archive) : Except ClientError Json × Archive :=
  match r with
  | .search _ options => (.ok (a.search options), a)
  | .store _ id document => (.ok (.obj []), { a with lists := a.lists.put id document })
  | _ => (.ok (.obj []), a)

/-- The archive as a search engine. -/
def client : SearchClient Archive := ⟨answer⟩

/-- A store that uses an archive, and keeps everything else in memory. -/
def deployment (settings : Settings) : Deployment Archive where
  settings := settings
  client := client
  cache := {}
  queue := {}

theorem reports_report (found : List Int) (size : Int) :
    Hits.Reports (report found size) found.length (found.take size.toNat) where
  count := rfl
  named := ⟨_, rfl, by rw [List.map_map]; rfl⟩

/-- A search says how many documents the query selects, and names the first of them. -/
theorem mem_selected {a : Archive} {query : Json} {n : Int} : n ∈ a.selected query ↔
    ∃ doc, (n, doc) ∈ a.docs ∧ Clause.holds { base with stored := a.resolve } doc query = true := by
  simp [selected]

theorem get?_lists_put_of_ne (a : Archive) (id : String) (document : Json) (other : String)
    (h : id ≠ other) : (a.lists.put id document).get? other = a.lists.get? other :=
  Table.get?_put_of_ne _ _ h

/-- An archive answers exactly. -/
def exact (settings : Settings) : ExactEngine (deployment settings) where
  document? a id := a.lists.get? id
  stored a id document answer after h := by
    cases h
    exact Table.get?_put_self _ _ _
  store_other := get?_lists_put_of_ne
  search _ _ _ := rfl
  refresh _ _ := rfl
  docs := docs
  base := base
  resolve := resolve
  resolve_reference _ _ := rfl
  answers a source query size := by
    refine ⟨_, _, _, rfl, reports_report (a.selected query) size, List.length_map _, ?_, ?_⟩
    · intro n hn
      exact mem_selected.mp (List.mem_of_mem_take hn)
    · intro hcount n doc hdoc hholds
      have hall : (a.selected query).length ≤ size.toNat := by omega
      rw [List.take_of_length_le hall]
      exact mem_selected.mpr ⟨doc, hdoc, hholds⟩
  stores := ⟨fun _ _ _ => ⟨_, rfl⟩, fun _ => ⟨_, rfl⟩⟩
  docs_search _ _ _ := rfl
  docs_store _ _ _ := rfl
  docs_refresh _ := rfl

/-- What the search for a lookup finds in an archive. -/
theorem find_eq {settings : Settings} {l : Lookup} {query source : Json}
    (hbody : l.body = (deployment settings).lookupBody query source) (hfield : l.field = none)
    (w : World Archive) : (l.find (deployment settings)).outcome w =
      (.ok ⟨(w.engine.selected query).length,
          ((w.engine.selected query).take settings.subquery.size.toNat).map Json.int, []⟩,
        w.asked (deployment settings) (ExactEngine.request (deployment settings) query source)) :=
  ExactEngine.find_of_reports hbody hfield rfl
    (reports_report (w.engine.selected query) settings.subquery.size)

/-- A lookup that is not remembered keeps what its search finds. -/
theorem resolve_eq {settings : Settings} {l : Lookup} {query source : Json} {w : World Archive}
    (hcached : ((deployment settings).cached? l.key).outcome w = (.ok none, w))
    (hbody : l.body = (deployment settings).lookupBody query source) (hfield : l.field = none) :
    (l.resolve (deployment settings)).outcome w = (l.keep (deployment settings)
        ⟨(w.engine.selected query).length,
          ((w.engine.selected query).take settings.subquery.size.toNat).map Json.int, []⟩).outcome
      (w.asked (deployment settings) (ExactEngine.request (deployment settings) query source)) := by
  unfold Lookup.resolve
  rw [outcome_bind_of_ok hcached]
  exact outcome_bind_of_ok (find_eq hbody hfield w) _

end Archive

end FactIndex
