import FactIndex.Proofs.Compile.Progress
import FactIndex.Proofs.Lookup.Sent
import FactIndex.Proofs.Store.Catalog

/-!
# Clauses that stay within the grammar

Every step of a compilation that makes a clause makes a query of the grammar, or none, from queries of the
grammar. The searches that it sends for its lookups are by queries of the grammar as well.

## Main definitions

* `Compiling.Yields`: a compilation that keeps to the grammar, with a condition on its answer.
* `Deployment.AreQueries`: what is compiled is in the grammar, if it is anything at all.
* `Deployment.yields_lookup` and its like: what lookups amount to.
* `Deployment.yields_entityClause`, `Deployment.yields_valueClause`, `Deployment.yields_objectClause`:
  the conditions.
-/

namespace FactIndex

open FactIndex.Effect

variable {σ α β : Type}

/-! ## Compilations -/

namespace Compiling

/-- A compilation keeps to the grammar while the stored queries of concepts are given. It leaves them
alone and sends only searches by queries of the grammar, whatever it answers, and what it answers
satisfies a condition. -/
def Yields (t : Table String String) (Q : α → Prop) (x : Compiling σ α) : Prop :=
  ∀ s, s.1.catalog.concepts = t → x.Meets s fun r s' =>
    s'.1.catalog.concepts = t ∧ s.1.SearchesOn s'.1 ∧ ∀ a, r = .ok a → Q a

variable {t : Table String String} {P : α → Prop} {Q : β → Prop}

namespace Yields

theorem pure {a : α} (h : P a) : Yields t P (Pure.pure a : Compiling σ α) := by
  intro s hs
  exact ⟨hs, .of_eq rfl, fun b hb => by cases hb; exact h⟩

theorem bind {x : Compiling σ α} {f : α → Compiling σ β} (hx : Yields t P x)
    (hf : ∀ a, P a → Yields t Q (f a)) : Yields t Q (x >>= f) := by
  intro s hs
  refine (hx s hs).bind (fun a s' h => ?_) fun e s' h => ?_
  · refine (hf a (h.2.2 a rfl) s' h.1).mono fun r s'' h' => ?_
    exact ⟨h'.1, h.2.1.trans h'.2.1, h'.2.2⟩
  · exact ⟨h.1, h.2.1, nofun⟩

/-- A part whose answer is of no consequence. -/
theorem bind_any {x : Compiling σ α} {f : α → Compiling σ β} (hx : Yields t (fun _ => True) x)
    (hf : ∀ a, Yields t Q (f a)) : Yields t Q (x >>= f) :=
  hx.bind fun a _ => hf a

theorem ofExcept {r : Except Failure α} (h : ∀ a, r = .ok a → P a) :
    Yields t P (Effect.ofExcept r : Compiling σ α) := by
  intro s hs
  exact Meets.ofExcept ⟨hs, .of_eq rfl, h⟩

/-- A result that may be a failure, and what is known of it if it is none. -/
theorem ofExcept_bind {r : Except Failure α} {f : α → Compiling σ β}
    (hf : ∀ a, r = .ok a → Yields t Q (f a)) : Yields t Q (Effect.ofExcept r >>= f) :=
  bind (P := fun a => r = .ok a) (ofExcept fun _ => id) hf

theorem note (g : Progress → Progress) :
    Yields t (fun _ => True) (Compiling.note g : Compiling σ Unit) :=
  fun _ hs => ⟨hs, .of_eq rfl, fun _ _ => trivial⟩

theorem progress : Yields t (fun _ => True) (Compiling.progress : Compiling σ Progress) :=
  fun _ hs => ⟨hs, .of_eq rfl, fun _ _ => trivial⟩

theorem act {x : Action σ α} (hconcepts : KeepsConcepts x) (hsearches : SearchesWell x)
    (h : ∀ w w' a, x.outcome w = (.ok a, w') → P a) : Yields t P (Compiling.act x) := by
  intro s hs
  refine ⟨(hconcepts s.1).trans hs, hsearches s.1, fun a ha => h s.1 _ a (Prod.ext ha rfl)⟩

/-- Numbers and hierarchies are asked for without any search. -/
theorem onCatalog {x : Action σ α} (hx : OnCatalog x)
    (h : ∀ w w' a, x.outcome w = (.ok a, w') → P a) : Yields t P (Compiling.act x) :=
  act hx.keepsConcepts (.of_leaves (hx.leaves fun _ _ _ => rfl)) h

/-- What follows on a look into the catalog may rely on the stored queries. -/
theorem catalog_bind {f : Catalog → Compiling σ β}
    (h : ∀ c : Catalog, c.concepts = t → Yields t Q (f c)) :
    Yields t Q (Compiling.act catalog >>= f) := by
  intro s hs
  have hcatalog : (Compiling.act (catalog : Action σ Catalog)).outcome s = (.ok s.1.catalog, s) := rfl
  exact Meets.bind_of_ok hcatalog (h s.1.catalog hs s hs)

/-- A lookup amounts to a query. -/
theorem lookUp {x : Action σ Resolved} (hcatalog : KeepsCatalog x) (hsearches : SearchesWell x)
    (h : ∀ w w' r, x.outcome w = (.ok r, w') → Clause.IsQuery r.clause) :
    Yields t Clause.IsQuery (Compiling.lookUp x) :=
  (act (P := fun r => Clause.IsQuery r.clause) hcatalog.keepsConcepts hsearches h).bind fun _ hr =>
    (note _).bind_any fun _ => pure hr

theorem expandingOf {hash : String} {x : Compiling σ α} (h : Yields t P x) :
    Yields t P (Compiling.expandingOf hash x) := by
  intro s hs
  have hx := h (s.1, { s.2 with expanding := s.2.expanding ++ [hash] }) hs
  unfold Meets at hx ⊢
  rw [outcome_expandingOf]
  exact hx

end Yields

end Compiling

namespace Deployment

open Compiling Clause

variable {t : Table String String} (d : Deployment σ)

/-- What is compiled is in the grammar, if it is anything at all. -/
abbrev AreQueries (clauses : Option Json) : Prop := ∀ clause ∈ clauses, IsQuery clause

theorem areQueries_none : AreQueries none := fun _ h => nomatch h

theorem areQueries_some {clause : Json} (h : IsQuery clause) : AreQueries (some clause) := by
  rintro _ ⟨⟩
  exact h

/-! ## Lookups -/

theorem isQuery_of_resolved {l : Lookup} {field name title : String} {w w' : World σ} {r : Resolved}
    (h : (d.resolved l field name title).outcome w = (.ok r, w')) : IsQuery r.clause := by
  obtain ⟨m, u, -, h⟩ := exists_of_bind_ok h
  cases h
  exact d.isQuery_hasNumber field m.numbers

theorem isQuery_of_lookupConcept {c : Entity} {number : Json} {description : Description}
    {clause : Json} {w w' : World σ} {r : Resolved}
    (h : (d.lookupConcept c number description clause).outcome w = (.ok r, w')) :
    IsQuery r.clause := by
  obtain ⟨text, u, -, h⟩ := exists_of_bind_ok h
  exact d.isQuery_of_resolved h

theorem isQuery_of_lookupInverse {key field : String} {params : Json} {w w' : World σ} {r : Resolved}
    (h : (d.lookupInverse key field params).outcome w = (.ok r, w')) : IsQuery r.clause := by
  unfold lookupInverse at h
  split at h
  · cases h
    exact d.isQuery_hasNumber _ _
  · exact d.isQuery_of_resolved h

theorem yields_lookup (key field : String) {params : Json} (h : IsQuery (compoundAt "must" params)) :
    Yields t IsQuery (lookUp (d.lookup key field params)) :=
  .lookUp (d.keepsCatalog_lookup _ _ _) (d.searchesWell_lookup key field h)
    fun _ _ _ => d.isQuery_of_resolved

theorem yields_lookupChain (p : Property) (text field : String) {clause : Json} (h : IsQuery clause) :
    Yields t IsQuery (lookUp (d.lookupChain p text field clause)) :=
  .lookUp (d.keepsCatalog_lookupChain _ _ _ _) (d.searchesWell_lookupChain p text field h)
    fun _ _ _ => d.isQuery_of_resolved

theorem yields_lookupConcept (c : Entity) (number : Json) (description : Description) {clause : Json}
    (h : IsQuery clause) : Yields t IsQuery (lookUp (d.lookupConcept c number description clause)) := by
  exact .lookUp (d.keepsCatalog_lookupConcept _ _ _ _)
    (d.searchesWell_lookupConcept c number description h) fun _ _ _ => d.isQuery_of_lookupConcept

theorem yields_lookupInverse (key field : String) (params : Json) :
    Yields t IsQuery (lookUp (d.lookupInverse key field params)) := by
  exact .lookUp (d.keepsCatalog_lookupInverse _ _ _) (d.searchesWell_lookupInverse key field params)
    fun _ _ _ => d.isQuery_of_lookupInverse

/-! ## Leaves -/

theorem yields_visit (node : Description) : Yields t (fun _ => True) (d.visit node) := by
  unfold visit
  split
  · exact Yields.ofExcept_bind fun _ _ => Yields.note _
  · exact Yields.pure trivial

theorem isQuery_memberClause (field : String) (number : Int) (lower : List Int) :
    IsQuery (memberClause field number lower) := by
  have hterm : IsQuery (term field (.int number)) := .leaf (isLeaf_term _ _)
  unfold memberClause
  dsimp only
  split
  · exact hterm
  · refine .compound .should (List.cons_ne_nil _ _) fun c hc => ?_
    rcases List.mem_cons.mp hc with rfl | hc
    · exact hterm
    · rw [List.mem_singleton.mp hc]
      exact .leaf (isLeaf_terms _ _)

/-- The members of a list that is answered have what every single answer has. -/
theorem forall_mem_of_mapM {f : α → Action σ β} {P : β → Prop}
    (h : ∀ a w w' b, (f a).outcome w = (.ok b, w') → P b) {as : List α} {w w' : World σ} {bs : List β}
    (hbs : (as.mapM f).outcome w = (.ok bs, w')) : ∀ b ∈ bs, P b := by
  induction as generalizing w bs with
  | nil =>
      cases hbs
      exact fun _ hb => nomatch hb
  | cons a as ih =>
      rw [List.mapM_cons] at hbs
      obtain ⟨b, u, hb, hbs⟩ := exists_of_bind_ok hbs
      obtain ⟨rest, v, hrest, hbs⟩ := exists_of_bind_ok hbs
      cases hbs
      exact List.forall_mem_cons.mpr ⟨h a w u b hb, ih hrest⟩

/-- The condition on categories, of which there is one at least. -/
theorem isQuery_of_categoryClause {isMember negated : Bool} {categories : List Entity}
    {depth : Option Int} (hne : categories ≠ []) {w w' : World σ} {clause : Json}
    (h : (d.categoryClause isMember categories depth negated).outcome w = (.ok clause, w')) :
    IsQuery clause := by
  unfold categoryClause at h
  obtain ⟨number, u, -, h⟩ := exists_of_bind_ok h
  obtain ⟨numbered, v, hgroups, h⟩ := exists_of_bind_ok h
  obtain ⟨clauses, v', hclauses, h⟩ := exists_of_bind_ok h
  have hlength : clauses.length = categories.length := by
    rw [length_of_mapM hclauses, List.length_mergeSort, length_of_mapM hgroups]
  have hsome : clauses ≠ [] := by
    rw [← List.length_pos_iff] at hne ⊢
    omega
  have hall : ∀ c ∈ clauses, IsQuery c := by
    refine forall_mem_of_mapM (fun member w w' c hc => ?_) hclauses
    obtain ⟨lower, w'', -, hc⟩ := exists_of_bind_ok hc
    cases hc
    exact isQuery_memberClause _ _ _
  have hquery : ∀ occur, IsQuery (compound occur clauses) := fun occur => .compound occur hsome hall
  cases negated with
  | false =>
      cases h
      exact hquery _
  | true =>
      cases h
      exact (hquery _).alone .mustNot

theorem yields_categoryClause (isMember negated : Bool) {categories : List Entity}
    (depth : Option Int) (hne : categories ≠ []) :
    Yields t IsQuery (.act (d.categoryClause isMember categories depth negated)) :=
  .onCatalog (d.onCatalog_categoryClause _ _ _ _) fun _ _ _ => d.isQuery_of_categoryClause hne

theorem isQuery_placed (isMember negated isFilter : Bool) {clause : Json} (h : IsQuery clause) :
    IsQuery (placed isMember negated isFilter clause) := by
  unfold placed
  split
  · exact h.alone .mustNot
  · split
    · exact h
    · exact h.alone _

/-- Where a condition looks: at a group that is named by a number, if at any. -/
def Site.HasNumberedGroup (site : Site) : Prop := ∀ group ∈ site.group, ∃ n, group.1 = Field.group n

theorem hasNumberedGroup_of_namedSite {condition : Description} {p : Property} {w w' : World σ} {site : Site}
    (h : (namedSite condition p).outcome w = (.ok site, w')) : site.HasNumberedGroup := by
  unfold namedSite at h
  obtain ⟨n, u, -, h⟩ := exists_of_bind_ok h
  dsimp only at h
  split at h
  · obtain ⟨text, v, -, h⟩ := exists_of_bind_ok h
    obtain ⟨e, v', hthrow, -⟩ := exists_of_bind_ok h
    cases hthrow
  · obtain ⟨lower, v, -, h⟩ := exists_of_bind_ok h
    cases h
    rintro group ⟨⟩
    exact ⟨n, rfl⟩

theorem yields_entityClause (isMember : Bool) (item : Item) (comparator : Comparator)
    (property : Option Property) :
    Yields t IsQuery (d.entityClause isMember item comparator property) := by
  refine Yields.bind (show Yields t Site.HasNumberedGroup _ from ?_) fun site hgroups =>
    (Yields.onCatalog (P := fun _ => True) (onCatalog_siteValue _ _ _) fun _ _ _ _ => trivial).bind_any
      fun found => ?_
  · cases property with
    | none =>
        refine .onCatalog (OnCatalog.pure _) fun w w' site h => ?_
        cases h
        exact fun _ hgroup => nomatch hgroup
    | some p => exact .onCatalog (onCatalog_namedSite _ _) fun _ _ _ => hasNumberedGroup_of_namedSite
  · dsimp only
    split
    · exact Yields.ofExcept_bind fun _ _ => (Yields.note _).bind_any fun _ =>
        Yields.pure (.leaf isLeaf_nothing)
    · refine Yields.ofExcept_bind fun made hmade => Yields.pure (isQuery_placed _ _ _ ?_)
      have hleaf : IsQuery made.1 := .leaf (Condition.isLeaf_ofEntity hmade)
      split
      · rename_i name lower hgroup
        obtain ⟨n, rfl⟩ := hgroups _ hgroup
        exact hleaf.overHierarchy n lower
      · exact hleaf

theorem yields_propertySite (p : Property) (depth : Option Int) :
    Yields t (fun site => ∃ n, site.1 = Field.group n) (.act (d.propertySite p depth)) := by
  refine .onCatalog (d.onCatalog_propertySite _ _) fun w w' site h => ?_
  obtain ⟨n, u, -, h⟩ := exists_of_bind_ok h
  obtain ⟨lower, v, -, h⟩ := exists_of_bind_ok h
  cases h
  exact ⟨n, rfl⟩

theorem yields_inverseClause (p : Property) (group text : String) (c : Comparator) (value : Json)
    {clause : Json} (h : IsQuery clause) :
    Yields t IsQuery (d.inverseClause p group text c value clause) := by
  unfold inverseClause
  dsimp only
  split
  · exact d.yields_lookupInverse _ _ _
  · have hquery : IsQuery (compoundAt "must" clause) := isQuery_wrapped h false
    exact (d.yields_lookup text "_id" hquery).bind fun _ _ => Yields.ofExcept_bind fun _ _ =>
      d.yields_lookupInverse _ _ _

theorem yields_propertyCondition (p : Property) (group : String) (item : Item)
    (comparator : Comparator) (property : Option Property) :
    Yields t (fun m => IsQuery m.clause) (d.propertyCondition p group item comparator property) := by
  refine (Yields.onCatalog (P := fun _ => True) (onCatalog_arrayValue _ _ _)
    fun _ _ _ _ => trivial).bind_any fun found => Yields.ofExcept_bind fun m hm => ?_
  have hleaf : IsQuery m.clause := .leaf (Condition.isLeaf_ofProperty hm)
  split
  · exact Yields.pure hleaf
  · exact Yields.ofExcept_bind fun _ _ => (d.yields_inverseClause _ _ _ _ _ hleaf).bind
      fun _ hclause => Yields.pure hclause

/-- The negated ones have a field to be there. -/
theorem yields_negatedClause (path : List Nat) (field : String) {clause : Json} (h : IsQuery clause) :
    Yields t IsQuery (d.negatedClause path field clause) := by
  have hquery : IsQuery (compound .must [hasField field, compound .mustNot [clause]]) := by
    refine .compound .must (List.cons_ne_nil _ _) fun c hc => ?_
    rcases List.mem_cons.mp hc with rfl | hc
    · exact .leaf (isLeaf_hasField _)
    · rw [List.mem_singleton.mp hc]
      exact h.alone .mustNot
  unfold negatedClause
  split
  · exact (Yields.note _).bind_any fun _ => Yields.pure hquery
  · exact Yields.pure hquery

theorem yields_valueClause (path : List Nat) (p : Property) {site : String × List Int}
    (hsite : ∃ n, site.1 = Field.group n) (item : Item) (comparator : Comparator)
    (property : Option Property) :
    Yields t IsQuery (d.valueClause path p site item comparator property) := by
  refine (d.yields_propertyCondition _ _ _ _ _).bind fun m hm => ?_
  have hclause : IsQuery (if p.inverse then m.clause else overHierarchy m.clause site.1 site.2) := by
    obtain ⟨n, hn⟩ := hsite
    split
    · exact hm
    · rw [hn]
      exact hm.overHierarchy n _
  dsimp only
  split
  · exact d.yields_negatedClause _ _ hclause
  · exact Yields.pure (hclause.alone _)

theorem isQuery_presenceClause (p : Property) {site : String × List Int}
    (hsite : ∃ n, site.1 = Field.group n) (negated : Bool) :
    IsQuery (presenceClause p site negated) := by
  obtain ⟨n, hn⟩ := hsite
  unfold presenceClause
  rw [hn]
  have hfield : ∀ field, IsQuery (hasField field) := fun _ => .leaf (isLeaf_hasField _)
  exact ((hfield _).overHierarchy n _).alone _

/-! ## Joining clauses -/

theorem areQueries_joined (occur : Occur) {clauses : List Json} (h : ∀ c ∈ clauses, IsQuery c) :
    AreQueries (joined occur clauses) := by
  unfold joined
  split
  · exact areQueries_none
  · rename_i hne
    exact areQueries_some (.compound occur (by simpa using hne) h)

theorem yields_disjoined {clauses : List (List Nat × Json)} (h : ∀ m ∈ clauses, IsQuery m.2) :
    Yields t AreQueries (disjoined clauses : Compiling σ (Option Json)) := by
  have hjoined : AreQueries (joined .should (clauses.map (·.2))) :=
    areQueries_joined _ fun c hc => by
      obtain ⟨m, hm, rfl⟩ := List.mem_map.mp hc
      exact h m hm
  unfold disjoined
  cases hquery : joined .should (clauses.map (·.2)) with
  | none => exact Yields.pure areQueries_none
  | some query =>
      refine Yields.progress.bind_any fun p => Yields.pure ?_
      rintro clause ⟨⟩
      split
      · exact hjoined query hquery
      · refine .compound .must (List.cons_ne_nil _ _) fun c hc => ?_
        rcases List.mem_cons.mp hc with rfl | hc
        · exact hjoined _ hquery
        · obtain ⟨field, -, rfl⟩ := List.mem_map.mp hc
          exact .leaf (isLeaf_hasField _)

theorem yields_objectClause (p : Property) (group text : String) {clauses : List Json}
    (h : ∀ c ∈ clauses, IsQuery c) : Yields t AreQueries (d.objectClause p group text clauses) := by
  have hwhole : ∀ {clause : Json}, IsQuery clause →
      AreQueries (some (compound .must [compound .must [clause]])) := by
    intro clause hclause
    exact areQueries_some ((hclause.alone .must).alone .must)
  unfold objectClause
  split
  · exact Yields.pure areQueries_none
  · rename_i hne
    have hquery : IsQuery (compoundAt "must" (.arr clauses)) :=
      .compound .must (by simpa using hne) h
    refine (d.yields_lookup text _ hquery).bind fun found hfound => ?_
    dsimp only
    split
    · exact Yields.ofExcept_bind fun _ _ => (d.yields_lookupInverse _ _ _).bind fun _ hclause =>
        Yields.pure (hwhole hclause)
    · exact Yields.pure (hwhole hfound)

theorem yields_chainClause (p : Property) (field : String) (rest : Description) {clause : Option Json}
    (h : AreQueries clause) : Yields t AreQueries (d.chainClause p field rest clause) := by
  unfold chainClause
  split
  · exact Yields.pure h
  · split
    · exact Yields.pure h
    · exact Yields.ofExcept_bind fun _ _ => Yields.ofExcept_bind fun _ _ =>
        (d.yields_lookupInverse _ _ _).bind fun _ hclause => Yields.pure (areQueries_some hclause)

theorem yields_linked (chain : Option String) (p : Property) (whole : Description)
    {clause : Option Json} (h : AreQueries clause) :
    Yields t AreQueries (d.linked chain p whole clause) := by
  unfold linked
  split
  · exact Yields.pure h
  · split
    · exact Yields.pure h
    · exact Yields.ofExcept_bind fun _ _ => (d.yields_lookupChain _ _ _ (h _ rfl)).bind
        fun _ hclause => Yields.pure (areQueries_some hclause)

theorem yields_conceptClause (c : Entity) (inner : Description) {clause : Option Json}
    (h : AreQueries clause) : Yields t AreQueries (d.conceptClause c inner clause) := by
  unfold conceptClause
  split
  · exact Yields.pure h
  · split
    · exact Yields.pure h
    · exact (Yields.onCatalog (P := fun _ => True) (OnCatalog.numberOf _)
        fun _ _ _ _ => trivial).bind_any fun _ => (d.yields_lookupConcept _ _ _ (h _ rfl)).bind
          fun _ hclause => Yields.pure (areQueries_some hclause)

end Deployment

end FactIndex
