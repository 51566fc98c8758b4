import FactIndex.Proofs.Lookup.Exact
/-!
# Lookups against the direction of a property

A property is followed from object to subject by a search for the objects, of which the answer carries the
array of the property: each document that it names and that has the array. The numbers in these arrays,
each once, are those of the subjects.

The objects are given by their numbers, or by a reference to a stored list of them, as a lookup before has
found them.

## Main definitions

* `Hits.Carries`: a document of an answer carries an array.
* `Hits.Shows`: an answer names documents and carries an array of each.
* `Hits.Shows.exists_fieldValues`: the numbers that are read.
* `SourcedEngine`: what is known of an engine that answers exactly and carries arrays.
* `Deployment.Suffices`: a recorded lookup was searched for, and found no more than it asked for.
* `ExactEngine.exists_lookup`: a lookup with an empty cache.
* `IsSubject`: what a property leads to from its objects.
* `SourcedEngine.exists_lookupInverse`: a lookup against the direction of a property.
* `Archive.sourced`: an archive that answers with arrays.
-/

namespace FactIndex

/-- Whole numbers are the same if they are equal. -/
theorem Json.same_int (m n : Int) : (Json.int m).same (.int n) = decide (m = n) := by
  show sameExact ⟨m < 0, m.natAbs, 0⟩ ⟨n < 0, n.natAbs, 0⟩ = _
  rw [Bool.eq_iff_iff]
  simp [sameExact, Decimal.Binary.fraction]
  omega

namespace Hits

/-- The name of a group has no point, so that a field is split after it. -/
theorem splitField_inGroup (n : Int) (array : String) :
    splitField (Field.inGroup (Field.group n) array) = (Field.group n, array) := by
  have hgroup : ∀ c ∈ (Field.group n).toList, decide (c ≠ '.') = true := by
    intro c hc
    rw [decide_eq_true_eq]
    rintro rfl
    simp only [Field.group, String.toList_append, List.mem_append, Decimal.toList_toString] at hc
    exact hc.elim (by decide) (Decimal.not_mem_intChars (by decide) (by decide) n)
  have hfield : (Field.inGroup (Field.group n) array).toList = (Field.group n).toList ++ '.' :: array.toList := by
    simp [Field.inGroup]
  unfold splitField
  rw [hfield, List.span_eq_takeWhile_dropWhile, List.takeWhile_append_of_pos hgroup,
    List.dropWhile_append_of_pos hgroup]
  simp

/-! ## What is carried -/

/-- A document of an answer carries the values of an array. A document without the group has none. -/
def Carries (item : Json) (group array : String) (values : List Json) : Prop :=
  ∃ source, item.get? "_source" = some (.obj source) ∧
    ((∃ arrays, Table.get? source group = some (.obj arrays) ∧ Table.get? arrays array = some (.arr values)) ∨
      Table.get? source group = none ∧ values = [])

/-- An answer names documents by their numbers, and carries an array of each. -/
def Shows (answer : Json) (group array : String) (found : List (Int × Indexed)) : Prop :=
  ∃ items, (answer.get? "hits").bind (·.get? "hits") = some (.arr items) ∧
    List.Forall₂ (fun item x => Carries item group array (x.2 (Field.inGroup group array))) items found

/-- The array that is read off a document of an answer. -/
def arrayOf (group array : String) (item : Json) : Except Failure Json := do
  let source ← memberOf item "_source" (.obj [])
  memberOf (← memberOf source group (.obj [])) array (.arr [])

/-- The values of a field are those in the arrays. -/
theorem fieldValues_eq (hits : Json) (field : String) : fieldValues hits field = (do
    (← (← list hits).elements).foldlM (fun found item => do
      return addNew found (Clause.listed (← arrayOf (splitField field).1 (splitField field).2 item))) []) := by
  simp only [fieldValues, arrayOf, bind_assoc]
  rfl

/-- What is carried is what is read. -/
theorem Carries.arrayOf_eq {item : Json} {group array : String} {values : List Json}
    (h : Carries item group array values) : arrayOf group array item = .ok (.arr values) := by
  obtain ⟨source, hsource, hvalues⟩ := h
  unfold arrayOf
  rw [memberOf_of_get? hsource]
  rcases hvalues with ⟨arrays, hgroup, harray⟩ | ⟨hgroup, rfl⟩
  · simp [memberOf, hgroup, harray, Bind.bind, Except.bind]
  · simp [memberOf, hgroup, Bind.bind, Except.bind, Table.get?]

/-- Numbers that are there are not added again. -/
theorem exists_addNew (ids values : List Int) : ∃ more : List Int,
    addNew (ids.map Json.int) (values.map Json.int) = more.map Json.int ∧
      ∀ n, n ∈ more ↔ n ∈ ids ∨ n ∈ values := by
  induction values generalizing ids with
  | nil => exact ⟨ids, rfl, by simp⟩
  | cons value values ih =>
      have hany : (ids.map Json.int).any (Json.int value).same = decide (value ∈ ids) := by
        rw [List.any_map, Bool.eq_iff_iff, List.any_eq_true]
        simp [Json.same_int]
      by_cases hmem : value ∈ ids
      · obtain ⟨more, hadd, hmore⟩ := ih ids
        refine ⟨more, ?_, fun n => ?_⟩
        · rw [← hadd]
          simp only [addNew, List.map_cons, List.foldl_cons, hany, hmem, decide_true, if_true]
        · rw [hmore, List.mem_cons]
          constructor
          · exact Or.imp_right .inr
          · rintro (hn | rfl | hn)
            exacts [.inl hn, .inl hmem, .inr hn]
      · obtain ⟨more, hadd, hmore⟩ := ih (ids ++ [value])
        refine ⟨more, ?_, fun n => ?_⟩
        · rw [← hadd]
          simp only [addNew, List.map_cons, List.foldl_cons, hany, hmem, decide_false, Bool.false_eq_true,
            if_false, List.map_append, List.map_nil]
        · rw [hmore, List.mem_append, List.mem_singleton, List.mem_cons, or_assoc]

/-- The numbers in the arrays that an answer carries are read, each once. -/
theorem Shows.exists_fieldValues {ms : Members} {number : Int} {array : String}
    {found : List (Int × Indexed)} (h : Shows (.obj ms) (Field.group number) array found)
    (hints : ∀ x ∈ found, ∃ ids : List Int,
      x.2 (Field.inGroup (Field.group number) array) = ids.map Json.int) :
    ∃ ids : List Int, fieldValues (of ms) (Field.inGroup (Field.group number) array) =
        .ok (ids.map Json.int) ∧
      ∀ n, n ∈ ids ↔ ∃ x ∈ found, .int n ∈ x.2 (Field.inGroup (Field.group number) array) := by
  obtain ⟨items, hanswer, hcarries⟩ := h
  obtain ⟨hits, hhits, hitems⟩ := Option.bind_eq_some_iff.mp hanswer
  have hof : of ms = hits := congrArg (·.getD (.obj [])) hhits
  -- By induction on the documents, with the numbers that have been read before.
  have hread : ∀ ids : List Int, ∃ more : List Int,
      items.foldlM (fun read item => do
        return addNew read (Clause.listed (← arrayOf (Field.group number) array item))) (ids.map Json.int) =
          Except.ok (more.map Json.int) ∧
      ∀ n, n ∈ more ↔ n ∈ ids ∨ ∃ x ∈ found, .int n ∈ x.2 (Field.inGroup (Field.group number) array) := by
    clear hanswer hitems
    induction hcarries with
    | nil => exact fun ids => ⟨ids, rfl, by simp⟩
    | @cons item x items found hitem _ ih =>
        intro ids
        obtain ⟨⟨values, hvalues⟩, hrest⟩ := List.forall_mem_cons.mp hints
        obtain ⟨added, hadd, hadded⟩ := exists_addNew ids values
        obtain ⟨more, hmore, hmem⟩ := ih hrest added
        refine ⟨more, ?_, fun n => ?_⟩
        · rw [List.foldlM_cons, hitem.arrayOf_eq, hvalues, ← hmore, ← hadd]
          rfl
        · have hcons : (∃ y ∈ x :: found, .int n ∈ y.2 (Field.inGroup (Field.group number) array)) ↔
              n ∈ values ∨ ∃ y ∈ found, .int n ∈ y.2 (Field.inGroup (Field.group number) array) := by
            simp [hvalues]
          rw [hmem, hadded, hcons, or_assoc]
  obtain ⟨ids, hids, hmem⟩ := hread []
  refine ⟨ids, ?_, fun n => by simpa using hmem n⟩
  rw [hof, fieldValues_eq, splitField_inGroup, list, memberOf_of_get? hitems]
  exact hids

end Hits

open FactIndex.Effect

variable {σ : Type}

/-- What is known of a search engine that answers exactly: asked for an array of a property, it carries it
with each document that it names. -/
structure SourcedEngine (d : Deployment σ) extends ExactEngine d where
  shows : ∀ s number array query size, ∃ answer found,
    (d.client.send (.search (d.indexName IndexType.data)
        [("source", Json.ofTexts [Field.inGroup (Field.group number) array]), ("query", query),
          ("size", .int size)]) s).1 = .ok answer ∧
      Hits.Reports answer ((docs s).filter fun x =>
        Clause.holds { base with stored := resolve s } x.2 query).length (found.map (·.1)) ∧
      Hits.Shows answer (Field.group number) array found ∧
      (∀ x ∈ found, x ∈ docs s ∧ Clause.holds { base with stored := resolve s } x.2 query = true) ∧
      ((((docs s).filter fun x =>
        Clause.holds { base with stored := resolve s } x.2 query).length : Int) ≤ size →
          ∀ x ∈ docs s, Clause.holds { base with stored := resolve s } x.2 query = true → x ∈ found)

/-- A recorded lookup was not answered from the cache, and found no more than it asked for. -/
structure Deployment.Suffices (d : Deployment σ) (record : Members) : Prop where
  fresh : ∀ found, Table.get? record "is_from_cache" = some found → found = .bool false
  count : ∀ n, Table.get? record "count" = some (.int n) → n ≤ d.settings.subquery.size

variable {d : Deployment σ} {w : World σ}

/-! ## Nothing to follow from -/

namespace Deployment

theorem isNothing_int (n : Int) : isNothing (.int n) = decide (n = 0) := by
  have hsame : isNothing (.int n) = (Json.int n).same (.int 0) := rfl
  rw [hsame, Json.same_int]

/-- There is nothing to follow from if the result of a lookup is empty. -/
theorem isNothing_toJson {index : String} {numbers : Numbers}
    (h : isNothing (numbers.toJson index) = true) : numbers = .listed [] := by
  cases numbers with
  | stored id => cases h
  | listed ids =>
      cases ids with
      | nil => rfl
      | cons n ids => cases h

end Deployment

/-! ## The lookup before -/

/-- With an empty cache a lookup asks for what its query selects, unless it finds more than it asks for. -/
theorem ExactEngine.exists_lookup (E : ExactEngine d)
    (hcache : d.cache.IsUsable .waiting d.settings.subquery.lifetimeSeconds)
    (hempty : ∀ full, w.kept d full = none) (key field : String) (params : Json) :
    let query := Deployment.wrapped params true
    ∃ r after numbers, (d.lookup key field params).outcome w = (.ok r, after) ∧
      r.clause = d.hasNumber field (Numbers.toJson (d.indexName IndexType.lookup) numbers) ∧
      after.catalog = w.catalog ∧ E.docs after.engine = E.docs w.engine ∧
      d.Remembers after (fun _ _ => True) ∧
      (d.Suffices r.record → E.count w.engine query ≤ d.settings.subquery.size ∧
        E.Lists after.engine numbers (E.Selected w.engine query)) := by
  intro query
  let l := d.plainLookup key params
  have hbody : l.body = d.lookupBody query (.bool false) := rfl
  have hfind : ∀ w' : World σ, w'.engine = w.engine → ∃ count, ∃ ids : List Int,
      (l.find d).outcome w' =
          (.ok ⟨count, ids.map Json.int, []⟩, w'.asked d (request d query (.bool false))) ∧
        count = E.count w.engine query ∧ (count ≤ d.settings.subquery.size →
          ∀ n, n ∈ ids ↔ E.Selected w.engine query n) := by
    intro w' hw'
    obtain ⟨ids, hfind, hsound, hall⟩ := E.exists_find hbody rfl w'
    rw [hw'] at hfind hsound hall
    exact ⟨_, ids, hfind, rfl, fun hcount n => ⟨hsound n, hall hcount n⟩⟩
  have hremembers : d.Remembers w fun _ _ => False := .of_empty hempty
  obtain ⟨count, numbers, record, after, hresolve, hcount, -, hcatalog, hcases⟩ :=
    l.exists_resolve hcache E.stores hremembers rfl hfind
  rcases hcases with ⟨-, -, -, hnone, -⟩ | ⟨-, ids, ⟨rfl, hids⟩, rfl, hengine, hremembers⟩
  · exact hnone.elim
  · refine ⟨⟨d.hasNumber field _, [("predefined_lookup_query", .str key), ("query", .obj l.body)] ++ record⟩,
      after, _, outcome_bind_of_ok hresolve _, rfl, hcatalog, ?_,
      hremembers _ (fun _ _ _ => trivial) trivial, fun hsuffices => ⟨hsuffices.count _ hcount, ?_⟩⟩
    · rw [hengine]
      exact (E.lists_resultOf l _ (fun _ => Iff.rfl) _).2.trans (E.docs_search _ _ _)
    · rw [hengine]
      exact (E.lists_resultOf l _ (hids (hsuffices.count _ hcount)) _).1

/-! ## The lookup itself -/

/-- A number is in an array of a document that is an object. -/
def IsSubject (docs : List (Int × Indexed)) (array : String) (isObject : Int × Indexed → Bool) (n : Int) :
    Prop := ∃ y ∈ docs, isObject y = true ∧ .int n ∈ y.2 array

namespace SourcedEngine

variable (E : SourcedEngine d) {number : Int} {array : String}

/-- The search for a lookup that asks for an array finds the numbers in the arrays of the documents that its
query selects. -/
theorem exists_find {l : Lookup} {query : Json}
    (hbody : l.body = d.lookupBody query (Json.ofTexts [Field.inGroup (Field.group number) array]))
    (hfield : l.field = some (Field.inGroup (Field.group number) array))
    (hints : ∀ x ∈ E.docs w.engine, ∃ ids : List Int,
      x.2 (Field.inGroup (Field.group number) array) = ids.map Json.int) :
    ∃ count, ∃ ids : List Int, (l.find d).outcome w = (.ok ⟨count, ids.map Json.int, []⟩, w.asked d
        (ExactEngine.request d query (Json.ofTexts [Field.inGroup (Field.group number) array]))) ∧
      count ≤ E.count w.engine query ∧
      (E.count w.engine query ≤ d.settings.subquery.size →
        ∀ n, n ∈ ids ↔ IsSubject (E.docs w.engine) (Field.inGroup (Field.group number) array)
          (E.selects w.engine query) n) := by
  obtain ⟨answer, found, hanswer, hreports, hshows, hsound, hall⟩ :=
    E.shows w.engine number array query d.settings.subquery.size
  obtain ⟨ms, rfl, htotal, -⟩ := hreports.exists_members
  obtain ⟨ids, hids, hmem⟩ := hshows.exists_fieldValues fun x hx => hints x (hsound x hx).1
  have hfound : l.ofAnswer ms = .ok
      (if (ids.map Json.int).isEmpty then 0 else (E.count w.engine query : Int), ids.map Json.int) := by
    unfold Lookup.ofAnswer
    dsimp only
    rw [htotal, hfield]
    dsimp only
    rw [hids]
    rfl
  refine ⟨_, ids, ExactEngine.find_of_members hbody hanswer hfound, ?_, fun hsize n => (hmem n).trans ?_⟩
  · dsimp only
    split <;> omega
  constructor
  · rintro ⟨y, hy, hvalue⟩
    exact ⟨y, (hsound y hy).1, (hsound y hy).2, hvalue⟩
  · rintro ⟨y, hy, hholds, hvalue⟩
    exact ⟨y, hall hsize y hy hholds, hvalue⟩

/-- What a lookup against the direction of a property comes to, given a query for the objects. It is searched
for if nothing is remembered. Unless it is answered from the cache or finds more than it asks for, its clause
asks for the documents under the numbers in the arrays of the objects. -/
structure Follows (w : World σ) (array : String) (query : Json) (good : Lookup → Numbers → Prop)
    (r : Resolved) (after : World σ) : Prop where
  catalog : after.catalog = w.catalog
  docs : E.docs after.engine = E.docs w.engine
  isNew : (∀ l numbers, ¬ good l numbers) → E.count w.engine query ≤ d.settings.subquery.size →
    d.Suffices r.record
  holds_iff : d.Suffices r.record → E.count w.engine query ≤ d.settings.subquery.size → ∀ doc,
    Clause.holds (E.matching after.engine) doc r.clause = true ↔
      ∃ n, IsSubject (E.docs w.engine) array (E.selects w.engine query) n ∧
        E.base.hasValue doc "_id" (.int n) = true

variable {good : Lookup → Numbers → Prop} (key : String) {params : Json}

/-- Where there is nothing to follow from, no search is made. -/
theorem exists_lookupInverse_of_nothing (hempty : Deployment.isNothing params = true)
    (hnothing : ∀ y ∈ E.docs w.engine, E.selects w.engine (Clause.terms "_id" params) y = false) :
    ∃ r after, (d.lookupInverse key array params).outcome w = (.ok r, after) ∧
      E.Follows w array (Clause.terms "_id" params) good r after := by
  have hlists : E.Lists w.engine (.listed [])
      (IsSubject (E.docs w.engine) array (E.selects w.engine (Clause.terms "_id" params))) := by
    refine E.lists_listed.mpr fun n => ⟨nofun, ?_⟩
    rintro ⟨y, hy, hselects, -⟩
    rw [hnothing y hy] at hselects
    cases hselects
  refine ⟨⟨d.hasNumber "_id" (.arr []), [("inverse_lookup_query", .str key),
    ("query", .str "Failed with invalid or unmatchable ID")]⟩, w, ?_, rfl, rfl, fun _ _ => ?_,
    fun _ _ doc => E.holds_hasNumber hlists "_id" doc⟩
  · unfold Deployment.lookupInverse
    rw [if_pos hempty]
    rfl
  · exact ⟨by simp [Table.get?], by simp [Table.get?]⟩

/-- Otherwise the lookup is recalled, or searched for. -/
theorem exists_lookupInverse_of_something
    (hcache : d.cache.IsUsable .waiting d.settings.subquery.lifetimeSeconds) (h : d.Remembers w good)
    (hints : ∀ x ∈ E.docs w.engine, ∃ ids : List Int,
      x.2 (Field.inGroup (Field.group number) array) = ids.map Json.int)
    (hsome : Deployment.isNothing params ≠ true) :
    ∃ r after, (d.lookupInverse key (Field.inGroup (Field.group number) array) params).outcome w =
        (.ok r, after) ∧
      E.Follows w (Field.inGroup (Field.group number) array) (Clause.terms "_id" params) good r after := by
  let field := Field.inGroup (Field.group number) array
  let l := d.inverseLookup key field params
  let query := Clause.constantScore (Clause.compound .must [Clause.terms "_id" params])
  have hquery : E.selects w.engine query = E.selects w.engine (Clause.terms "_id" params) := by
    refine funext fun x => ?_
    simp [ExactEngine.selects, query, Clause.holds_constantScore]
  have hfind : ∀ w' : World σ, w'.engine = w.engine → ∃ count, ∃ ids : List Int,
      (l.find d).outcome w' = (.ok ⟨count, ids.map Json.int, []⟩,
        w'.asked d (ExactEngine.request d query (Json.ofTexts [field]))) ∧
      count ≤ E.count w.engine query ∧ (E.count w.engine query ≤ d.settings.subquery.size →
        ∀ n, n ∈ ids ↔ IsSubject (E.docs w.engine) field (E.selects w.engine query) n) := by
    intro w' hw'
    rw [← hw'] at hints ⊢
    exact E.exists_find (l := l) rfl rfl hints
  obtain ⟨count, numbers, record, after, hresolve, hcount, -, hcatalog, hcases⟩ :=
    l.exists_resolve hcache E.stores h rfl hfind
  rw [ExactEngine.count, hquery] at hcases
  refine ⟨⟨d.hasNumber "_id" (numbers.toJson (d.indexName IndexType.lookup)),
    [("inverse_lookup_query", .str key), ("query", .obj l.body)] ++ record⟩, after, ?_, hcatalog, ?_, ?_, ?_⟩
  · unfold Deployment.lookupInverse
    rw [if_neg hsome]
    exact outcome_bind_of_ok hresolve _
  · rcases hcases with ⟨-, -, -, -, hengine, -⟩ | ⟨-, ids, -, -, hengine, -⟩ <;> rw [hengine]
    exact (E.lists_resultOf l _ (fun _ => Iff.rfl) _).2.trans (E.docs_search _ _ _)
  · intro hnone hsize
    rcases hcases with ⟨-, l', -, hl', -⟩ | ⟨hfresh, ids, ⟨hle, -⟩, -⟩
    · exact (hnone _ _ hl').elim
    · refine ⟨fun found hfound => ?_, fun n hn => ?_⟩
      · rw [Table.get?_append rfl, hfresh] at hfound
        exact (Option.some.inj hfound).symm
      · rw [Table.get?_append rfl, hcount] at hn
        cases hn
        exact hle.trans hsize
  · intro hsuffices hsize doc
    rcases hcases with ⟨hcached, -⟩ | ⟨-, ids, ⟨-, hids⟩, rfl, hengine, -⟩
    · cases hsuffices.fresh _ hcached
    · rw [hengine]
      exact E.holds_hasNumber (E.lists_resultOf l _ (hids hsize) _).1 "_id" doc

/-- A lookup against the direction of a property, from objects of which none is selected where there is
nothing to follow from. -/
theorem exists_lookupInverse (hcache : d.cache.IsUsable .waiting d.settings.subquery.lifetimeSeconds)
    (h : d.Remembers w good) (hints : ∀ x ∈ E.docs w.engine, ∃ ids : List Int,
      x.2 (Field.inGroup (Field.group number) array) = ids.map Json.int)
    (hnothing : Deployment.isNothing params = true →
      ∀ y ∈ E.docs w.engine, E.selects w.engine (Clause.terms "_id" params) y = false) :
    ∃ r after, (d.lookupInverse key (Field.inGroup (Field.group number) array) params).outcome w =
        (.ok r, after) ∧
      E.Follows w (Field.inGroup (Field.group number) array) (Clause.terms "_id" params) good r after := by
  by_cases hempty : Deployment.isNothing params = true
  · exact E.exists_lookupInverse_of_nothing key hempty (hnothing hempty)
  · exact E.exists_lookupInverse_of_something key hcache h hints hempty

end SourcedEngine

/-! ## Archives that answer with arrays -/

namespace Archive

/-- A document in an answer: its name, with an array of the document if one is asked for. -/
def hit (source : Json) (x : Int × Indexed) : Json :=
  match source with
  | .arr [.str field] =>
    let (group, array) := Hits.splitField field
    .obj [("_id", .str (toString x.1)), ("_source", .single group (.single array (.arr (x.2 field))))]
  | _ => .single "_id" (.str (toString x.1))

/-- The documents that a query selects. -/
def found (a : Archive) (query : Json) : List (Int × Indexed) :=
  a.docs.filter fun x => Clause.holds { base with stored := a.resolve } x.2 query

/-- The answer with a number of documents and the first of them. -/
def sourcedReport (source : Json) (found : List (Int × Indexed)) (size : Int) : Json :=
  .single "hits" (.obj [("total", .single "value" (.int found.length)),
    ("hits", .arr ((found.take size.toNat).map (hit source)))])

/-- The answer to a search that may ask for an array. -/
def sourcedSearch (a : Archive) (options : Members) : Json :=
  match Table.get? options "source", Table.get? options "query", Table.get? options "size" with
  | some source, some query, some (.int size) => sourcedReport source (a.found query) size
  | _, _, _ => .obj []

/-- The archive as a search engine that can be asked for arrays. -/
def sourcedClient : SearchClient Archive where
  send r a := match r with
    | .search _ options => (.ok (a.sourcedSearch options), a)
    | r => answer r a

/-- A store that uses such an archive, and keeps everything else in memory. -/
def sourcedDeployment (settings : Settings) : Deployment Archive where
  settings := settings
  client := sourcedClient
  cache := {}
  queue := {}

theorem reports_sourcedReport (source : Json) (found : List (Int × Indexed)) (size : Int) :
    Hits.Reports (sourcedReport source found size) found.length ((found.take size.toNat).map (·.1)) where
  count := rfl
  named := by
    refine ⟨_, rfl, ?_⟩
    rw [List.map_map, List.map_map]
    refine List.map_congr_left fun x _ => ?_
    simp only [Function.comp_apply, hit]
    split <;> rfl

theorem shows_sourcedReport (number : Int) (array : String) (found : List (Int × Indexed)) (size : Int) :
    Hits.Shows (sourcedReport (Json.ofTexts [Field.inGroup (Field.group number) array]) found size)
      (Field.group number) array (found.take size.toNat) := by
  refine ⟨_, rfl, ?_⟩
  induction found.take size.toNat with
  | nil => exact .nil
  | cons x xs ih =>
      refine .cons ⟨[(Field.group number, .single array (.arr
        (x.2 (Field.inGroup (Field.group number) array))))], ?_, .inl ⟨[(array, .arr
          (x.2 (Field.inGroup (Field.group number) array)))], ?_, ?_⟩⟩ ih
      · simp only [hit, Json.ofTexts, List.map_cons, List.map_nil, Hits.splitField_inGroup]
        rfl
      · exact Table.get?_put_self [] _ _
      · exact Table.get?_put_self [] _ _

/-- Such an archive answers exactly, and carries the arrays that it is asked for. -/
def sourced (settings : Settings) : SourcedEngine (sourcedDeployment settings) where
  document? a id := a.lists.get? id
  stored a id document answer after h := by
    cases h
    exact Table.get?_put_self _ _ _
  store_other := get?_lists_put_of_ne
  search _ _ _ := rfl
  refresh _ _ := rfl
  docs := docs
  base := base
  resolve := resolve
  resolve_reference _ _ := rfl
  answers a source query size := by
    refine ⟨_, _, _, rfl, reports_sourcedReport source (a.found query) size, rfl, ?_, ?_⟩
    · intro n hn
      obtain ⟨x, hx, rfl⟩ := List.mem_map.mp hn
      exact ⟨x.2, List.mem_filter.mp (List.mem_of_mem_take hx)⟩
    · intro hcount n doc hdoc hholds
      rw [List.take_of_length_le (by omega)]
      exact List.mem_map.mpr ⟨(n, doc), List.mem_filter.mpr ⟨hdoc, hholds⟩, rfl⟩
  stores := ⟨fun _ _ _ => ⟨_, rfl⟩, fun _ => ⟨_, rfl⟩⟩
  docs_search _ _ _ := rfl
  docs_store _ _ _ := rfl
  docs_refresh _ := rfl
  shows a number array query size := by
    refine ⟨_, _, rfl, reports_sourcedReport _ (a.found query) size, shows_sourcedReport _ _ _ _,
      fun x hx => List.mem_filter.mp (List.mem_of_mem_take hx), fun hcount x hx hholds => ?_⟩
    have hall : ((a.found query).length : Int) ≤ size := hcount
    rw [List.take_of_length_le (by omega)]
    exact List.mem_filter.mpr ⟨hx, hholds⟩

end Archive

end FactIndex
