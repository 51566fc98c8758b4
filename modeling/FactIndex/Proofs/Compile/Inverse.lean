import FactIndex.Proofs.Lookup.Inverse
import FactIndex.Proofs.Compile.Direct
import FactIndex.Proofs.Compile.Hindsight

/-!
# Properties against their direction

The objects of an inverse property are sought first, by their number or by a search, and the documents
under the numbers in their arrays are asked for. So nothing but its number decides whether a document is
selected.

This is not so if any object will do: then a document is asked for values of its own, as if the property
were not inverse.

## Main definitions

* `Description.isSought`: what the objects are sought by.
* `Description.isObject`: whether a document is one of them.
* `Clause.Tell`: what clauses select together, now and later on.
* `Matching.Files`: what is known of the documents.
* `Deployment.exists_objectClause`, `Deployment.exists_pageClause`: the two ways to seek.
* `Deployment.compile_inverse`: what an inverse property selects.
-/

namespace FactIndex

open FactIndex.Effect FactIndex.Compiling

variable {σ : Type}

namespace Description

/-- A category or a namespace. -/
def isClass : Description → Bool
  | .category categories _ _ => !categories.isEmpty
  | .space _ => true
  | _ => false

/-- What entities are searched for by. -/
def isSearched : Description → Bool
  | .conjunction ds => !ds.isEmpty && ds.all isClass
  | node => node.isClass

/-- What the objects of an inverse property are sought by: one is named, or they are searched for. -/
def isSought : Description → Bool
  | .value (.page _) .eq _ => true
  | node => node.isSearched

/-- Whether a document, given with its number, is such an object. -/
def isObject (M : Matching) (c : Catalog) (q : QuerySettings) (y : Int × Indexed) : Description → Bool
  | .value (.page e) _ _ => c.numberOf? (.entity e) = some y.1
  | node => node.describes M c q y.2

theorem times_of_isClass {node : Description} (h : node.isClass = true) : node.times = [] := by
  cases node with
  | category | space => rfl
  | conjunction | disjunction | concept | someProperty | value | thing => cases h

theorem isStanding_of_isClass {node : Description} (h : node.isClass = true) : node.IsStanding := by
  cases node with
  | category | space => trivial
  | conjunction | disjunction | concept | someProperty | value | thing => cases h

theorem times_of_isSearched {node : Description} (h : node.isSearched = true) : node.times = [] := by
  have hall : ∀ ds : List Description, ds.all isClass = true → allTimes ds = [] := by
    intro ds hds
    induction ds with
    | nil => rfl
    | cons m ms ih =>
        rw [List.all_cons, Bool.and_eq_true] at hds
        rw [allTimes, times_of_isClass hds.1, ih hds.2, List.append_nil]
  cases node with
  | conjunction ds => exact hall ds (Bool.and_eq_true_iff.mp h).2
  | category | space => rfl
  | disjunction | concept | someProperty | value | thing => cases h

theorem isClass_of_isSearched {node : Description} (h : node.isSearched = true)
    (hne : ∀ ds, node ≠ .conjunction ds) : node.isClass = true := by
  cases node with
  | conjunction ds => exact (hne ds rfl).elim
  | category | space => exact h
  | disjunction | concept | someProperty | value | thing => cases h

theorem isSought_cases {inner : Description} (h : inner.isSought = true) :
    (∃ e named, inner = .value (.page e) .eq named) ∨ inner.isSearched = true := by
  revert h
  fun_cases isSought inner with
  | case1 e named => exact fun _ => .inl ⟨e, named, rfl⟩
  | case2 => exact .inr

theorem times_of_isSought {inner : Description} (h : inner.isSought = true) : inner.times = [] := by
  rcases isSought_cases h with ⟨e, named, rfl⟩ | hsearched
  · rfl
  · exact times_of_isSearched hsearched

/-- What is searched for is what is described. -/
theorem isObject_of_isSearched {node : Description} (h : node.isSearched = true) (M : Matching)
    (c : Catalog) (q : QuerySettings) (y : Int × Indexed) :
    node.isObject M c q y = node.describes M c q y.2 := by
  cases node with
  | conjunction | category | space => rfl
  | disjunction | concept | someProperty | value | thing => cases h

theorem exists_queryText {node : Description} (h : node.times = []) :
    ∃ text, node.queryText = .ok text := by
  rw [queryText, isOk_textAt, h]
  exact List.forall_mem_nil _

end Description

/-! ## What is known of documents -/

/-- Documents are found by their numbers, and the arrays of numbers hold nothing else. -/
structure Matching.Files (M : Matching) (docs : List (Int × Indexed)) : Prop extends M.Identifies docs where
  distinct : (docs.map Prod.fst).Nodup
  nonzero : ∀ x ∈ docs, x.1 ≠ 0
  numbers : ∀ x ∈ docs, ∀ n, ∃ ids : List Int,
    x.2 (Field.inGroup (Field.group n) Field.numbers) = ids.map Json.int

/-! ## Categories and namespaces -/

namespace Catalog.Grows

theorem mentions_category {c c' : Catalog} (h : c.Grows c') (q : QuerySettings) (categories : List Entity)
    (depth : Option Int) (negated : Bool) :
    Description.mentions c' q (.category categories depth negated) =
      Description.mentions c q (.category categories depth negated) := by
  simp only [Description.mentions, reach, h.lower_eq]

theorem knows {c c' : Catalog} (h : c.Grows c') {item : Numbered} (hitem : c.Knows item) :
    c'.Knows item := by
  obtain ⟨n, hn⟩ := hitem
  exact ⟨n, h.numbers _ n hn⟩

end Catalog.Grows

/-- Several clauses select together what is meant, also when more has a number. -/
structure Clause.Tell (c : Catalog) (clauses : List Json)
    (meant : Matching → Catalog → Indexed → Bool) : Prop where
  selfContained : ∀ clause ∈ clauses, IsSelfContained clause
  all_eq : ∀ c', c.Grows c' → ∀ M doc, clauses.all (holds M doc) = meant M c' doc

/-- Stored lists are of no consequence. -/
theorem Clause.Tell.all_stored {c : Catalog} {clauses : List Json}
    {meant : Matching → Catalog → Indexed → Bool} (h : Tell c clauses meant) (M : Matching)
    (stored : Json → List Json) (doc : Indexed) :
    clauses.all (holds { M with stored } doc) = meant M c doc := by
  rw [← h.all_eq c (.refl c), Bool.eq_iff_iff, List.all_eq_true, List.all_eq_true]
  exact forall₂_congr fun clause hmem => by rw [h.selfContained clause hmem]

/-- At most more has a number. -/
structure Compiling.NumbersOnly (s t : World σ × Progress) : Prop where
  records : t.2.records = s.2.records
  world : ∃ c, t.1 = { s.1 with catalog := c } ∧ s.1.catalog.Grows c

namespace Compiling.NumbersOnly

variable {s t u : World σ × Progress}

theorem trans (h : NumbersOnly s t) (h' : NumbersOnly t u) : NumbersOnly s u := by
  obtain ⟨c, ht, hc⟩ := h.world
  obtain ⟨c', hu, hc'⟩ := h'.world
  rw [ht] at hu hc'
  exact ⟨h'.records.trans h.records, c', hu, hc.trans hc'⟩

theorem grows (h : NumbersOnly s t) : s.1.catalog.Grows t.1.catalog := by
  obtain ⟨c, ht, hc⟩ := h.world
  rwa [ht]

theorem engine (h : NumbersOnly s t) : t.1.engine = s.1.engine := by
  obtain ⟨c, ht, -⟩ := h.world
  rw [ht]

theorem kept (h : NumbersOnly s t) (d : Deployment σ) : t.1.kept d = s.1.kept d := by
  obtain ⟨c, ht, -⟩ := h.world
  rw [ht]
  exact kept_congr rfl rfl

end Compiling.NumbersOnly

namespace Deployment

variable (d : Deployment σ)

/-- Each item has a result of its own. -/
private theorem exists_related {α β : Type} {R : α → β → Prop} {items : List α} {results : List β}
    (h : List.Forall₂ R items results) {a : α} (ha : a ∈ items) : ∃ b ∈ results, R a b := by
  induction h with
  | nil => cases ha
  | cons hab _ ih =>
      rcases List.mem_cons.mp ha with rfl | ha
      · exact ⟨_, List.mem_cons_self, hab⟩
      · obtain ⟨b, hb, hrelated⟩ := ih ha
        exact ⟨b, List.mem_cons_of_mem _ hb, hrelated⟩

/-- What the clause of categories rests on has numbers from then on. -/
theorem exists_categoryClause (isMember : Bool) (categories : List Entity) (depth : Option Int)
    (negated : Bool) (w : World σ) : ∃ clause c,
    (d.categoryClause isMember categories depth negated).outcome w =
        (.ok clause, { w with catalog := c }) ∧ w.catalog.Grows c ∧
      ∀ item ∈ Description.mentions c d.settings.query (.category categories depth negated),
        c.Knows item := by
  obtain ⟨i, c₁, hi, hc₁, hfield⟩ := exists_number (.property Property.instanceOf) w
  obtain ⟨numbered, c₂, hnumbered, hc₂, hnumbers⟩ := exists_mapM
    (f := fun e : Entity => (do return (← numberOf (.entity e), e) : Action σ (Int × Entity)))
    (P := fun c e m => c.numberOf? (.entity e) = some m.1 ∧ m.2 = e)
    (fun _ _ _ _ hgrows hm => ⟨hgrows.numbers _ _ hm.1, hm.2⟩) categories (fun e _ w' => by
      obtain ⟨n, c, hn, hc, hnumber⟩ := exists_number (.entity e) w'
      exact ⟨(n, e), c, outcome_bind_of_ok hn _, hc, hnumber, rfl⟩) { w with catalog := c₁ }
  obtain ⟨clauses, c₃, hclauses, hc₃, hbelow⟩ := exists_mapM
    (f := d.oneCategory (Field.inGroup (Field.group i) Field.numbers) depth)
    (P := fun c m _ => ∀ other ∈ c.lower (.entity m.2) (d.depthOf depth), c.Knows other)
    (fun _ _ _ _ hgrows hm other hother => hgrows.knows (hm other (by rwa [hgrows.lower_eq] at hother)))
    (numbered.mergeSort fun a b => a.1 ≤ b.1) (fun m _ w' => by
      obtain ⟨lower, c, hlower, hc, hknown, -⟩ := exists_below (.entity m.2) (d.depthOf depth) w'
      exact ⟨_, c, outcome_bind_of_ok hlower _, hc, hknown⟩) { w with catalog := c₂ }
  have hrun : ∃ clause, (d.categoryClause isMember categories depth negated).outcome w =
      (.ok clause, { w with catalog := c₃ }) := by
    unfold categoryClause
    rw [outcome_bind_of_ok hi, outcome_bind_of_ok hnumbered, outcome_bind_of_ok hclauses]
    exact ⟨_, rfl⟩
  obtain ⟨clause, hrun⟩ := hrun
  refine ⟨clause, c₃, hrun, hc₁.trans (hc₂.trans hc₃), fun item hitem => ?_⟩
  rcases List.mem_cons.mp hitem with rfl | hitem
  · exact ⟨i, (hc₂.trans hc₃).numbers _ i hfield⟩
  · obtain ⟨e, he, hitem⟩ := List.mem_flatMap.mp hitem
    obtain ⟨m, hm, hnumber, rfl⟩ := exists_related hnumbers he
    rcases List.mem_cons.mp hitem with rfl | hitem
    · exact ⟨m.1, hc₃.numbers _ _ hnumber⟩
    · obtain ⟨_, -, hknown⟩ := exists_related hbelow (List.mem_mergeSort.mpr hm)
      exact hknown item hitem

/-- A category or a namespace comes to a clause that selects what it describes. -/
theorem exists_classClause {node : Description} (h : node.isClass = true) (s : World σ × Progress) :
    ∃ clause t, (d.standingClause true node).outcome s = (.ok clause, t) ∧ NumbersOnly s t ∧
      Clause.Tell t.1.catalog [clause] fun M c doc => node.describes M c d.settings.query doc := by
  cases node with
  | category categories depth negated =>
      have hne : categories ≠ [] := by simpa [Description.isClass] using h
      obtain ⟨clause, c, hrun, hgrows, hknown⟩ :=
        d.exists_categoryClause true categories depth negated s.1
      have hact : (act (d.categoryClause true categories depth negated)).outcome s =
          (.ok clause, ({ s.1 with catalog := c }, s.2)) := by rw [outcome_act, hrun]
      refine ⟨clause, _, hact, ⟨rfl, c, rfl, hgrows⟩, ?_, fun c' hc' M doc => ?_⟩
      · have hanswers : Answers (d.categoryClause true categories depth negated) False Clause.IsClosed :=
          d.answers_categoryClause _ _ _ _
        simpa using (hanswers.good s.1 clause (by rw [hrun])).selfContained
      · have hknown' : ∀ item ∈ Description.mentions c' d.settings.query
            (.category categories depth negated), c'.Knows item := by
          rw [hc'.mentions_category]
          exact fun item hitem => hc'.knows (hknown item hitem)
        obtain ⟨other, hother, hholds⟩ :=
          d.outcome_categoryClause true (w := { s.1 with catalog := c' }) hne hknown'
        have hagain := ((d.repeatedBy_categoryClause true categories depth negated).again s clause
          (by rw [hact]) ({ s.1 with catalog := c' }, s.2) (by rw [hact]; exact hc')).1
        rw [outcome_act, hother] at hagain
        cases hagain
        simpa using hholds M doc
  | space n =>
      refine ⟨_, s, rfl, ⟨rfl, s.1.catalog, rfl, .refl _⟩, ?_, fun c' _ M doc => ?_⟩
      · have hclosed : Clause.IsClosed (Clause.term "subject.namespace" (.int n)) :=
          Clause.isClosed_of_isElementary (Clause.isElementary_single _ (by decide))
        simpa [placed] using hclosed.selfContained
      · simp [holds_placed, Description.describes]
  | conjunction | disjunction | concept | someProperty | value | thing => cases h

theorem exists_visited {node : Description} (h : node.isClass = true) (s : World σ × Progress) :
    ∃ t, (d.visit node).outcome s = (.ok (), t) ∧ NumbersOnly s t := by
  obtain ⟨progress, hvisit, hrecords⟩ := d.exists_visit (s := s) fun _ =>
    node.isOk_portrait.mpr (by simp [Description.times_of_isClass h])
  exact ⟨(s.1, progress), hvisit, hrecords, s.1.catalog, rfl, .refl _⟩

/-- The members of a compound come to clauses that select together what each of them describes. -/
theorem exists_classClauses (expand : Expansion σ) (path : List Nat) {ds : List Description}
    (h : ds.all Description.isClass = true) (i : Nat) (s : World σ × Progress) :
    ∃ clauses t, (d.compileMembers expand path i ds).outcome s = (.ok clauses, t) ∧ NumbersOnly s t ∧
      clauses.length = ds.length ∧ Clause.Tell t.1.catalog (clauses.map (·.2)) fun M c doc =>
        Description.eachDescribes M c d.settings.query doc ds := by
  induction ds generalizing i s with
  | nil => exact ⟨[], s, rfl, ⟨rfl, s.1.catalog, rfl, .refl _⟩, rfl, by simp, fun _ _ _ _ => rfl⟩
  | cons m ms ih =>
      rw [List.all_cons, Bool.and_eq_true] at h
      obtain ⟨visited, hvisit, hvisited⟩ := d.exists_visited h.1 s
      obtain ⟨clause, t, hclause, hnumbers, htell⟩ := d.exists_classClause h.1 visited
      obtain ⟨clauses, u, hclauses, hnumbers', hlength, htells⟩ := ih h.2 (i + 1) t
      have hnode : (d.compileNode expand true (path ++ [i]) m).outcome s = (.ok (some clause), t) := by
        rw [compileNode_standing expand true _ (Description.isStanding_of_isClass h.1),
          outcome_bind_of_ok hvisit]
        exact outcome_bind_of_ok hclause _
      refine ⟨(path ++ [i], clause) :: clauses, u, ?_, hvisited.trans (hnumbers.trans hnumbers'),
        by simp [hlength], ?_, ?_⟩
      · rw [compileMembers, outcome_bind_of_ok hnode, outcome_bind_of_ok hclauses]
        rfl
      · exact List.forall_mem_cons.mpr ⟨htell.selfContained clause (by simp), htells.selfContained⟩
      · intro c hc M doc
        have hfirst := htell.all_eq c (hnumbers'.grows.trans hc) M doc
        rw [List.map_cons, List.all_cons, htells.all_eq c hc, Description.eachDescribes, ← hfirst]
        simp

/-! ## From object to subject -/

section

variable {d} {E : SourcedEngine d} {p : Property} {number : Int} {s : World σ × Progress}

/-- What the clause of a lookup restricts its field to is what the lookup came to. -/
theorem fieldFilter_hasNumber (field index : String) (numbers : Numbers) :
    Clause.fieldFilter field (d.hasNumber field (numbers.toJson index)) = .ok (numbers.toJson index) := by
  have hterms : Clause.fieldFilter field (Clause.terms field (numbers.toJson index)) =
      .ok (numbers.toJson index) := by
    cases numbers <;> simp [Clause.terms, Clause.several, Numbers.toJson, Json.ofInts, Clause.reference,
      Json.single, Clause.fieldFilter, Clause.namedIn, Table.get?, Bind.bind, Except.bind, Pure.pure,
      Except.pure]
  unfold hasNumber
  dsimp only
  split
  · rw [← hterms]
    simp [Clause.constantScore, Json.single, Clause.fieldFilter, Table.get?, Clause.fieldFilterScored,
      Clause.fieldFilterInner]
  · exact hterms

/-- The documents under the numbers in the arrays of the objects are asked for. -/
theorem exists_followed (hcache : d.cache.IsUsable .waiting d.settings.subquery.lifetimeSeconds)
    {good : Lookup → Numbers → Prop} (h : d.Remembers s.1 good)
    (hfiles : E.base.Files (E.docs s.1.engine)) (key : String) (number : Int) {params : Json}
    (isObject : Int × Indexed → Bool)
    (hnothing : isNothing params = true → ∀ x ∈ E.docs s.1.engine,
      E.selects s.1.engine (Clause.terms "_id" params) x = false) :
    ∃ clause t record, (lookUp (d.lookupInverse key (Field.inGroup (Field.group number) Field.numbers)
        params)).outcome s = (.ok clause, t) ∧ t.1.catalog = s.1.catalog ∧
      E.docs t.1.engine = E.docs s.1.engine ∧ t.2.records = s.2.records ++ [record] ∧
      ((∀ l numbers, ¬ good l numbers) →
        E.count s.1.engine (Clause.terms "_id" params) ≤ d.settings.subquery.size → d.Suffices record) ∧
      (d.Suffices record → E.count s.1.engine (Clause.terms "_id" params) ≤ d.settings.subquery.size →
        (∀ y ∈ E.docs s.1.engine, E.selects s.1.engine (Clause.terms "_id" params) y = isObject y) →
        ∀ x ∈ E.docs s.1.engine, E.selects t.1.engine clause x = true ↔ IsSubject (E.docs s.1.engine)
          (Field.inGroup (Field.group number) Field.numbers) isObject x.1) := by
  obtain ⟨r, after, hlookup, hfollows⟩ :=
    E.exists_lookupInverse key hcache h (fun x hx => hfiles.numbers x hx number) hnothing
  refine ⟨r.clause, _, r.record, outcome_lookUp_of_ok hlookup, hfollows.catalog, hfollows.docs, rfl,
    hfollows.isNew, fun hsuffices hcount hobjects x hx => ?_⟩
  refine (hfollows.holds_iff hsuffices hcount x.2).trans ?_
  constructor
  · rintro ⟨n, ⟨y, hy, hobject, hn⟩, hvalue⟩
    obtain rfl := (hfiles.hasId x hx n).mp hvalue
    exact ⟨y, hy, by rw [← hobjects y hy, hobject], hn⟩
  · rintro ⟨y, hy, hobject, hn⟩
    exact ⟨x.1, ⟨y, hy, by rw [hobjects y hy, hobject], hn⟩, (hfiles.hasId x hx x.1).mpr rfl⟩

/-! ### Objects that are searched for -/

section Searched

variable {before after : σ} {numbers : Numbers} {query : Json}

/-- The documents with the numbers that a lookup came to are those that its query selects. -/
theorem selects_listed (hfiles : E.base.Files (E.docs before)) (hdocs : E.docs after = E.docs before)
    (hlists : E.Lists after numbers (E.Selected before query)) : ∀ y ∈ E.docs after,
    E.selects after (Clause.terms "_id" (numbers.toJson (d.indexName IndexType.lookup))) y =
      E.selects before query y := by
  intro y hy
  rw [hdocs] at hy
  rw [Bool.eq_iff_iff]
  refine (E.holds_terms hlists "_id" y.2).trans ?_
  constructor
  · rintro ⟨n, ⟨doc, hdoc, hholds⟩, hvalue⟩
    obtain rfl := (hfiles.hasId y hy n).mp hvalue
    rwa [ExactEngine.selects, ← hfiles.unique (y.1, doc) hdoc y hy rfl]
  · exact fun hholds => ⟨y.1, ⟨y.2, hy, hholds⟩, (hfiles.hasId y hy y.1).mpr rfl⟩

theorem count_listed (hfiles : E.base.Files (E.docs before)) (hdocs : E.docs after = E.docs before)
    (hlists : E.Lists after numbers (E.Selected before query)) :
    E.count after (Clause.terms "_id" (numbers.toJson (d.indexName IndexType.lookup))) =
      E.count before query := by
  rw [ExactEngine.count, List.filter_congr (selects_listed hfiles hdocs hlists), hdocs]
  rfl

theorem selects_nothing (h : isNothing (numbers.toJson (d.indexName IndexType.lookup)) = true) :
    ∀ y ∈ E.docs after,
      E.selects after (Clause.terms "_id" (numbers.toJson (d.indexName IndexType.lookup))) y = false := by
  intro y _
  obtain rfl := isNothing_toJson h
  exact Clause.holds_terms _ _ _ []

end Searched

/-- The objects are sought by clauses. -/
theorem exists_objectClause (hcache : d.cache.IsUsable .waiting d.settings.subquery.lifetimeSeconds)
    (hinverse : p.inverse = true) (hpage : p.isPage = true) (hempty : ∀ full, s.1.kept d full = none)
    (hfiles : E.base.Files (E.docs s.1.engine)) (text : String) {clauses : List Json}
    (hne : clauses ≠ []) :
    ∃ clause t, (d.objectClause p (Field.group number) text clauses).outcome s = (.ok (some clause), t) ∧
      t.1.catalog = s.1.catalog ∧ E.docs t.1.engine = E.docs s.1.engine ∧
      ((∀ record ∈ t.2.records, d.Suffices record) →
        ∀ x ∈ E.docs s.1.engine, E.selects t.1.engine clause x = true ↔ IsSubject (E.docs s.1.engine)
          (Field.inGroup (Field.group number) Field.numbers)
          (fun y => clauses.all (Clause.holds (E.matching s.1.engine) y.2)) x.1) := by
  let field := Field.inGroup (Field.group number) Field.numbers
  obtain ⟨r, v, numbers, hlookup, hclause, hcatalog, hdocs, hremembers, hlists⟩ :=
    E.exists_lookup hcache hempty text field (.arr clauses)
  let found : World σ × Progress := (v, { s.2 with records := s.2.records ++ [r.record] })
  have hfound : (lookUp (d.lookup text field (.arr clauses))).outcome s = (.ok r.clause, found) :=
    outcome_lookUp_of_ok hlookup
  have hquery : ∀ y, E.selects s.1.engine (wrapped (.arr clauses) true) y =
      clauses.all (Clause.holds (E.matching s.1.engine) y.2) := fun y => by
    have hwrapped : wrapped (.arr clauses) true = Clause.constantScore (Clause.compound .must clauses) := rfl
    rw [ExactEngine.selects, hwrapped, Clause.holds_constantScore, Clause.holds_must]
  obtain ⟨clause, t, record, hfollowed, hcatalog', hdocs', hrecords, -, hselects⟩ :=
    exists_followed (s := found) hcache hremembers (hdocs ▸ hfiles) (inverseName p text) number
      (fun y => clauses.all (Clause.holds (E.matching s.1.engine) y.2)) selects_nothing
  refine ⟨Clause.compound .must [Clause.compound .must [clause]], t, ?_, hcatalog'.trans hcatalog,
    hdocs'.trans hdocs, fun hsuffices x hx => ?_⟩
  · unfold objectClause
    simp only [List.isEmpty_iff, hne, hpage, hinverse, if_true, if_false]
    rw [outcome_bind_of_ok hfound, hclause, fieldFilter_hasNumber]
    exact outcome_bind_of_ok hfollowed _
  · obtain ⟨hcount, hlist⟩ := hlists (hsuffices r.record (by rw [hrecords]; simp [found]))
    rw [← count_listed hfiles hdocs hlist] at hcount
    rw [← hdocs] at hx ⊢
    rw [← hselects (hsuffices record (by rw [hrecords]; simp)) hcount
      (fun y hy => (selects_listed hfiles hdocs hlist y hy).trans (hquery y)) x hx]
    simp [ExactEngine.selects]

/-! ### An object that is named -/

/-- A document is selected by its number. -/
theorem selects_number {state : σ} (hfiles : E.base.Files (E.docs state)) (m : Int) :
    ∀ y ∈ E.docs state, E.selects state (Clause.terms "_id" (.int m)) y = decide (y.1 = m) := by
  intro y hy
  have hvalue : E.selects state (Clause.terms "_id" (.int m)) y = E.base.hasValue y.2 "_id" (.int m) :=
    (Clause.holds_terms (E.matching state) y.2 "_id" [.int m]).trans (Bool.or_false _)
  rw [Bool.eq_iff_iff, hvalue, hfiles.hasId y hy, decide_eq_true_eq, eq_comm]

/-- No two documents have the same number. -/
theorem count_number_le {state : σ} (hfiles : E.base.Files (E.docs state)) (m : Int) :
    E.count state (Clause.terms "_id" (.int m)) ≤ 1 := by
  have hone := List.nodup_iff_count_le_one.mp hfiles.distinct m
  rw [List.count_eq_countP, List.countP_map, List.countP_eq_length_filter] at hone
  have hfilter : (E.docs state).filter (E.selects state (Clause.terms "_id" (.int m))) =
      (E.docs state).filter ((· == m) ∘ Prod.fst) := List.filter_congr (selects_number hfiles m)
  rwa [ExactEngine.count, hfilter]

/-- The clause for an object that is named is the lookup from its number. -/
theorem exists_valueClause_page (d : Deployment σ) (hinverse : p.inverse = true) (path : List Nat)
    (number : Int) (lower : List Int) (e : Entity) (named : Option Property) (s : World σ × Progress) :
    ∃ m c text, c.numberOf? (.entity e) = some m ∧ s.1.catalog.Grows c ∧
      (d.valueClause path p (Field.group number, lower) (.page e) .eq named).outcome s =
        (do return Clause.compound .filter [← lookUp (d.lookupInverse (inverseName p text)
          (Field.inGroup (Field.group number) Field.numbers) (.int m))] : Compiling σ Json).outcome
            ({ s.1 with catalog := c }, s.2) := by
  obtain ⟨m, c, hm, hgrows, hnumber⟩ := exists_number (.entity e) s.1
  obtain ⟨text, htext⟩ : ∃ text, (Description.value (.page e) .eq named).queryText = .ok text :=
    Description.exists_queryText rfl
  have harray : (arrayValue (Field.ofProperty p) (.page e) Comparator.eq.normal).outcome s.1 =
      (.ok (Field.numbers, .int m), { s.1 with catalog := c }) := outcome_bind_of_ok hm _
  have hact : (act (arrayValue (Field.ofProperty p) (.page e) Comparator.eq.normal)).outcome s =
      (.ok (Field.numbers, .int m), ({ s.1 with catalog := c }, s.2)) := by rw [outcome_act, harray]
  refine ⟨m, c, text, hnumber, hgrows, ?_⟩
  unfold valueClause propertyCondition
  dsimp only
  rw [bind_assoc, outcome_bind_of_ok hact, htext, hinverse]
  have hmatched : Condition.ofProperty d.settings.query d.settings.writer.normalKeywords p.valueType
      (Field.group number) Field.numbers (.page e) Comparator.eq.normal (.int m) =
        .ok ⟨Clause.term (Field.inGroup (Field.group number) Field.numbers) (.int m), Field.numbers, .int m,
          false, true⟩ := rfl
  have hok : ∀ {α : Type} (a : α), (Effect.ofExcept (.ok a) : Compiling σ α) = pure a := fun _ => rfl
  simp only [hmatched, hok, Bool.not_true, Bool.false_eq_true, if_false, if_true, pure_bind, bind_assoc]
  rfl

/-- An object is named. -/
theorem exists_pageClause (hcache : d.cache.IsUsable .waiting d.settings.subquery.lifetimeSeconds)
    (hsize : 1 ≤ d.settings.subquery.size) (hinverse : p.inverse = true)
    (hempty : ∀ full, s.1.kept d full = none) (hfiles : E.base.Files (E.docs s.1.engine))
    (path : List Nat) (lower : List Int) (e : Entity) (named : Option Property) :
    ∃ clause t, (d.valueClause path p (Field.group number, lower) (.page e) .eq named).outcome s =
        (.ok clause, t) ∧ s.1.catalog.Grows t.1.catalog ∧ E.docs t.1.engine = E.docs s.1.engine ∧
      ∀ x ∈ E.docs s.1.engine, E.selects t.1.engine clause x = true ↔ IsSubject (E.docs s.1.engine)
        (Field.inGroup (Field.group number) Field.numbers)
        (fun y => t.1.catalog.numberOf? (.entity e) = some y.1) x.1 := by
  obtain ⟨m, c, text, hnumber, hgrows, hrun⟩ :=
    exists_valueClause_page d hinverse path number lower e named s
  let numbered : World σ × Progress := ({ s.1 with catalog := c }, s.2)
  have hremembers : d.Remembers numbered.1 fun _ _ => False :=
    .of_empty fun full => (congrFun (kept_congr rfl rfl) full).trans (hempty full)
  have hnothing : isNothing (.int m) = true → ∀ x ∈ E.docs s.1.engine,
      E.selects s.1.engine (Clause.terms "_id" (.int m)) x = false := by
    intro hzero x hx
    rw [isNothing_int, decide_eq_true_eq] at hzero
    rw [selects_number hfiles m x hx, hzero]
    exact decide_eq_false (hfiles.nonzero x hx)
  have hcount : E.count s.1.engine (Clause.terms "_id" (.int m)) ≤ d.settings.subquery.size :=
    le_trans (Int.ofNat_le.mpr (count_number_le hfiles m)) hsize
  obtain ⟨clause, t, record, hfollowed, hcatalog, hdocs, -, hfresh, hselects⟩ :=
    exists_followed (s := numbered) hcache hremembers hfiles (inverseName p text) number
      (fun y => c.numberOf? (.entity e) = some y.1) hnothing
  refine ⟨Clause.compound .filter [clause], t, hrun.trans (outcome_bind_of_ok hfollowed _),
    hcatalog ▸ hgrows, hdocs, fun x hx => ?_⟩
  have hobjects : ∀ y ∈ E.docs s.1.engine, E.selects s.1.engine (Clause.terms "_id" (.int m)) y =
      decide (c.numberOf? (.entity e) = some y.1) := by
    intro y hy
    rw [selects_number hfiles m y hy, hnumber]
    simp [eq_comm]
  rw [hcatalog, ← hselects (hfresh (fun _ _ => id) hcount) hcount hobjects x hx]
  simp [ExactEngine.selects]

end

/-! ## Inverse properties -/

/-- The clauses by which entities are searched for. -/
def searchClauses (expand : Expansion σ) (path : List Nat) : Description → Compiling σ (List Json)
  | .conjunction ds => do return (← d.compileMembers expand (path ++ [0]) 0 ds).map (·.2)
  | node => do
    d.visit node
    return [← d.standingClause true node]

/-- The objects of a property are searched for. -/
theorem compileProperty_searched (expand : Expansion σ) (path : List Nat) (p : Property)
    (depth : Option Int) {node : Description} (h : node.isSearched = true) :
    d.compileProperty expand path none p depth node = (do
      let site ← .act (d.propertySite p depth)
      let text ← .ofExcept node.queryText
      d.objectClause p site.1 text (← d.searchClauses expand path node)) := by
  cases node with
  | conjunction | category =>
      simp only [compileProperty, searchClauses, standingClause, linked_none, bind_pure, bind_assoc, pure_bind]
  | space n =>
      have hplaced : placed true false true (Clause.term "subject.namespace" (.int n)) =
          Clause.term "subject.namespace" (.int n) := rfl
      simp only [compileProperty, searchClauses, standingClause, hplaced, linked_none, bind_pure, bind_assoc,
        pure_bind]
  | disjunction | concept | someProperty | value | thing => cases h

/-- A category or a namespace is searched for by its own clause. -/
theorem exists_searchClauses_of_isClass (expand : Expansion σ) (path : List Nat) {node : Description}
    (h : node.isClass = true) (s : World σ × Progress) :
    ∃ clause t, (d.searchClauses expand path node).outcome s = (.ok [clause], t) ∧ NumbersOnly s t ∧
      Clause.Tell t.1.catalog [clause] fun M c doc => node.describes M c d.settings.query doc := by
  have hclauses : d.searchClauses expand path node =
      d.visit node >>= fun _ => d.standingClause true node >>= fun clause => pure [clause] := by
    cases node with
    | category | space => rfl
    | conjunction | disjunction | concept | someProperty | value | thing => cases h
  obtain ⟨visited, hvisit, hvisited⟩ := d.exists_visited h s
  obtain ⟨clause, t, hclause, hnumbers, htell⟩ := d.exists_classClause h visited
  refine ⟨clause, t, ?_, hvisited.trans hnumbers, htell⟩
  rw [hclauses, outcome_bind_of_ok hvisit, outcome_bind_of_ok hclause]
  rfl

/-- What is searched for is searched for by clauses that select it together. -/
theorem exists_searchClauses (expand : Expansion σ) (path : List Nat) {node : Description}
    (h : node.isSearched = true) (s : World σ × Progress) :
    ∃ clauses t, (d.searchClauses expand path node).outcome s = (.ok clauses, t) ∧ NumbersOnly s t ∧
      clauses ≠ [] ∧ Clause.Tell t.1.catalog clauses fun M c doc =>
        node.describes M c d.settings.query doc := by
  cases node with
  | conjunction ds =>
      obtain ⟨hne, hall⟩ := Bool.and_eq_true_iff.mp h
      obtain ⟨clauses, t, hclauses, hnumbers, hlength, htell⟩ :=
        d.exists_classClauses expand (path ++ [0]) hall 0 s
      refine ⟨clauses.map (·.2), t, outcome_bind_of_ok hclauses _, hnumbers, ?_, htell⟩
      rintro hnil
      rw [List.map_eq_nil_iff.mp hnil] at hlength
      simp [List.eq_nil_of_length_eq_zero hlength.symm] at hne
  | category | space =>
      obtain ⟨clause, t, hclause, hnumbers, htell⟩ :=
        d.exists_searchClauses_of_isClass expand path (Description.isClass_of_isSearched h nofun) s
      exact ⟨[clause], t, hclause, hnumbers, List.cons_ne_nil _ _, htell⟩
  | disjunction | concept | someProperty | value | thing => cases h

section

variable {d} {E : SourcedEngine d} {p : Property} {depth : Option Int} {s : World σ × Progress}

/-- A property has its place from then on. -/
theorem exists_located (d : Deployment σ) (p : Property) (depth : Option Int) (s : World σ × Progress) :
    ∃ n lower c, (act (d.propertySite p depth)).outcome s =
        (.ok (Field.group n, lower), ({ s.1 with catalog := c }, s.2)) ∧
      s.1.catalog.Grows c ∧ c.numberOf? (.property p) = some n ∧
      c.numbersOf (c.lower (.property p) (d.depthOf depth)) = lower := by
  obtain ⟨lower, c, hsite, hgrows, hnumber, -, hlower⟩ := d.exists_propertySite_reach p depth s.1
  exact ⟨_, lower, c, by rw [outcome_act, hsite], hgrows, hnumber, hlower⟩

/-- What an inverse property comes to if its objects are sought. -/
theorem exists_inverse (hcache : d.cache.IsUsable .waiting d.settings.subquery.lifetimeSeconds)
    (hsize : 1 ≤ d.settings.subquery.size) (hinverse : p.inverse = true) (hpage : p.isPage = true)
    {inner : Description} (h : inner.isSought = true) (hempty : ∀ full, s.1.kept d full = none)
    (hfiles : E.base.Files (E.docs s.1.engine)) (expand : Expansion σ) (path : List Nat) :
    ∃ clause t field,
      (d.compileProperty expand path none p depth inner).outcome s = (.ok (some clause), t) ∧
      s.1.catalog.Grows t.1.catalog ∧ t.1.catalog.linkField? p = some field ∧
      ((inner.isSearched = true → ∀ record ∈ t.2.records, d.Suffices record) →
        ∀ x ∈ E.docs s.1.engine, E.selects t.1.engine clause x = true ↔ IsSubject (E.docs s.1.engine)
          field (fun y => inner.isObject E.base t.1.catalog d.settings.query y) x.1) := by
  obtain ⟨n, lower, c, hlocated, hgrows, hnumber, -⟩ := exists_located d p depth s
  let located : World σ × Progress := ({ s.1 with catalog := c }, s.2)
  have hfield : c.linkField? p = some (Field.inGroup (Field.group n) Field.numbers) :=
    Option.map_eq_some_iff.mpr ⟨n, hnumber, rfl⟩
  have hkept : ∀ full, located.1.kept d full = none := fun full =>
    (congrFun (kept_congr rfl rfl) full).trans (hempty full)
  rcases Description.isSought_cases h with ⟨e, named, rfl⟩ | hsearched
  · obtain ⟨clause, t, hclause, hgrows', -, hsubjects⟩ :=
      exists_pageClause (s := located) hcache hsize hinverse hkept hfiles path lower e named
    refine ⟨clause, t, _, ?_, hgrows.trans hgrows', hgrows'.linkField? hfield, fun _ => hsubjects⟩
    rw [compileProperty, outcome_bind_of_ok hlocated, outcome_bind_of_ok hclause]
    rfl
  · obtain ⟨text, htext⟩ := Description.exists_queryText (Description.times_of_isSearched hsearched)
    obtain ⟨clauses, u, hclauses, hnumbers, hne, htell⟩ :=
      d.exists_searchClauses expand path hsearched located
    have hengine : u.1.engine = s.1.engine := hnumbers.engine
    obtain ⟨clause, t, hclause, hcatalog, -, hsubjects⟩ := exists_objectClause (s := u) hcache hinverse hpage
      (fun full => (congrFun (hnumbers.kept d) full).trans (hkept full)) (hengine ▸ hfiles) text hne
    rw [← hcatalog] at htell
    have hgrows' : c.Grows t.1.catalog := hcatalog ▸ hnumbers.grows
    refine ⟨clause, t, _, ?_, hgrows.trans hgrows', hgrows'.linkField? hfield, fun hsuffices x hx => ?_⟩
    · rw [d.compileProperty_searched expand path p depth hsearched, outcome_bind_of_ok hlocated, htext]
      exact (outcome_bind_of_ok hclauses _).trans hclause
    · have hobjects : (fun y : Int × Indexed => clauses.all (Clause.holds (E.matching u.1.engine) y.2)) =
          fun y => inner.isObject E.base t.1.catalog d.settings.query y := by
        refine funext fun y => ?_
        rw [Description.isObject_of_isSearched hsearched]
        exact htell.all_stored E.base (E.resolve u.1.engine) y.2
      rw [hobjects, hengine] at hsubjects
      exact hsubjects (hsuffices hsearched) x hx

/-- What an inverse property comes to if any object will do: a document is asked for values of its own. -/
theorem exists_presence (d : Deployment σ) (p : Property) (depth : Option Int) (negated : Bool)
    (expand : Expansion σ) (path : List Nat) (s : World σ × Progress) :
    ∃ clause t, (d.compileProperty expand path none p depth (.thing negated)).outcome s =
        (.ok (some clause), t) ∧ s.1.catalog.Grows t.1.catalog ∧ ∀ M doc, Clause.holds M doc clause =
          (negated ^^ Description.hasProperty t.1.catalog doc p (depth.or d.settings.query.depth)) := by
  obtain ⟨n, lower, c, hlocated, hgrows, hnumber, hlower⟩ := exists_located d p depth s
  refine ⟨presenceClause p (Field.group n, lower) negated, ({ s.1 with catalog := c }, s.2), ?_, hgrows,
    fun M doc => ?_⟩
  · rw [compileProperty, outcome_bind_of_ok hlocated]
    rfl
  · rw [holds_presenceClause, ← hlower]
    simp only [Description.hasProperty, Catalog.fields, Catalog.reach, Catalog.numbersOf_cons hnumber,
      List.any_map, Function.comp_def]
    rfl

end

/-- An inverse property whose objects are sought selects the documents under the numbers in their arrays,
whatever else these documents hold. If any object will do, it selects the documents that have values
themselves. -/
theorem compile_inverse (d : Deployment σ) (E : SourcedEngine d)
    (hcache : d.cache.IsUsable .waiting d.settings.subquery.lifetimeSeconds)
    (hsize : 1 ≤ d.settings.subquery.size) {p : Property} (hinverse : p.inverse = true)
    (hpage : p.isPage = true) (depth : Option Int) (isMember : Bool) {w : World σ}
    (hempty : ∀ full, w.kept d full = none) (hfiles : E.base.Files (E.docs w.engine)) :
    (∀ inner : Description, inner.isSought = true → ∃ clause progress after field,
      (d.compile isMember (.someProperty p inner depth)).outcome w = (.ok (some clause, progress), after) ∧
      w.catalog.Grows after.catalog ∧ after.catalog.linkField? p = some field ∧
      ((inner.isSearched = true → ∀ record ∈ progress.records, d.Suffices record) →
        ∀ x ∈ E.docs w.engine, Clause.holds (E.matching after.engine) x.2 clause = true ↔
          IsSubject (E.docs w.engine) field
            (fun y => inner.isObject E.base after.catalog d.settings.query y) x.1)) ∧
    ∀ negated, ∃ clause progress after,
      (d.compile isMember (.someProperty p (.thing negated) depth)).outcome w =
        (.ok (some clause, progress), after) ∧ w.catalog.Grows after.catalog ∧
      ∀ M doc, Clause.holds M doc clause =
        (negated ^^ Description.hasProperty after.catalog doc p (depth.or d.settings.query.depth)) := by
  refine ⟨fun inner h => ?_, fun negated => ?_⟩
  · have htimes := Description.times_of_isSought h
    obtain ⟨start, -, hstart⟩ := d.exists_start (fun _ => (Description.isOk_portrait
      (.someProperty p inner depth)).mpr (by simp [Description.times, htimes])) isMember w
    obtain ⟨clause, t, field, hclause, hgrows, hfield, hsubjects⟩ :=
      exists_inverse (s := (w, start)) hcache hsize hinverse hpage h hempty hfiles
        (d.expandConcept (w.catalog.concepts.length + 1)) []
    rw [hstart, hclause]
    exact ⟨clause, t.2, t.1, field, rfl, hgrows, hfield, hsubjects⟩
  · obtain ⟨start, -, hstart⟩ := d.exists_start (fun _ => (Description.isOk_portrait
      (.someProperty p (.thing negated) depth)).mpr (by simp [Description.times])) isMember w
    obtain ⟨clause, t, hclause, hgrows, hholds⟩ := exists_presence d p depth negated
      (d.expandConcept (w.catalog.concepts.length + 1)) [] (w, start)
    rw [hstart, hclause]
    exact ⟨clause, t.2, t.1, rfl, hgrows, hholds⟩

/-- A town that lies in a country, and the country. -/
private def countryArchive : Archive where
  docs := [
    (1, fun field => if field = "_id" then [.int 1] else if field = "P:100.wpgID" then [.int 2] else []),
    (2, fun field => if field = "_id" then [.int 2] else [])]

private def countryStore : Deployment Archive := Archive.sourcedDeployment {}

private def countryWorld : World Archive where
  engine := countryArchive
  catalog := { next := 101, numbers := [(.entity "Oslo#0##", 1), (.property "Located in", 100)] }

private def countryOf : Property := { key := "Located in", inverse := true }

private def countryTown : Description := .value (.page { title := "Oslo" }) .eq none

private theorem country_files : Archive.base.Files countryArchive.docs where
  hasId := by
    simp [countryArchive, Matching.hasValue, Archive.base, @eq_comm Int _ 1, @eq_comm Int _ 2]
  unique := by
    simp [countryArchive]
  distinct := by decide
  nonzero := by decide
  numbers := by
    intro x hx n
    simp only [countryArchive, List.mem_cons, List.not_mem_nil, or_false] at hx
    rcases hx with rfl | rfl
    · dsimp only
      split
      · exact ⟨[1], rfl⟩
      · split
        exacts [⟨[2], rfl⟩, ⟨[], rfl⟩]
    · dsimp only
      split
      exacts [⟨[2], rfl⟩, ⟨[], rfl⟩]

/-- The town lies in the country and in nothing else. -/
theorem compile_inverse_country :
    countryStore.cache.IsUsable .waiting countryStore.settings.subquery.lifetimeSeconds ∧
      1 ≤ countryStore.settings.subquery.size ∧ countryOf.inverse = true ∧ countryOf.isPage = true ∧
      (∀ full, countryWorld.kept countryStore full = none) ∧ Archive.base.Files countryArchive.docs ∧
      countryTown.isSought = true ∧ ∃ clause progress after,
        (countryStore.compile false (.someProperty countryOf countryTown none)).outcome countryWorld =
          (.ok (some clause, progress), after) ∧
        ∀ x ∈ countryArchive.docs,
          Clause.holds ((Archive.sourced {}).matching after.engine) x.2 clause = true ↔ x.1 = 2 := by
  have husable : countryStore.cache.IsUsable .waiting countryStore.settings.subquery.lifetimeSeconds := by
    rintro _ _ ⟨⟩
  have hempty : ∀ full, countryWorld.kept countryStore full = none := fun _ => rfl
  obtain ⟨clause, progress, after, field, hrun, hgrows, hfield, hsubjects⟩ :=
    (compile_inverse countryStore (Archive.sourced {}) husable (by decide) (p := countryOf) rfl rfl none false
      hempty country_files).1 countryTown rfl
  have hplace : after.catalog.linkField? countryOf = some "P:100.wpgID" :=
    hgrows.linkField? (by decide +kernel)
  have htown : after.catalog.numberOf? (.entity { title := "Oslo" }) = some 1 :=
    hgrows.numbers _ 1 (by decide +kernel)
  obtain rfl : field = "P:100.wpgID" := Option.some.inj (hfield.symm.trans hplace)
  refine ⟨husable, by decide, rfl, rfl, hempty, country_files, rfl, clause, progress, after, hrun,
    fun x hx => (hsubjects nofun x hx).trans ?_⟩
  constructor
  · rintro ⟨y, hy, -, hn⟩
    rcases List.mem_pair.mp hy with rfl | rfl
    · simpa using hn
    · simp at hn
  · intro hx
    refine ⟨_, List.mem_cons_self, decide_eq_true htown, ?_⟩
    simp [hx]

end Deployment

end FactIndex
