import FactIndex.Proofs.Compile.Expanded
import FactIndex.Proofs.Compile.Numbering
import FactIndex.Proofs.Lookup.Exact

/-!
# Concepts with and without lookups

The members of a concept may be fetched beforehand. Then the outer query asks for their numbers or for
the list that is stored of them, in place of the clause of the stored description. It selects the same
documents.

## Main definitions

* `Deployment.hindsight`: the end of a compilation with or without lookups of concepts.
* `Deployment.compile_materialized`: the two queries select the same.
-/

namespace FactIndex

open FactIndex.Effect FactIndex.Digest FactIndex.Compiling Relation

variable {σ : Type}

/-- A time in a description, or in the stored description of a concept, cannot be compared or written. -/
def Description.HasIllegible (t : Table String String) (description : Description) : Prop :=
  ∃ time, ¬ Description.IsLegible time ∧ (time ∈ description.times ∨
    ∃ hash inner, Concepts.definition? t hash = some inner ∧ time ∈ inner.times)

/-- An engine answers the same whether concepts are looked up or not. -/
def ExactEngine.withConceptLookup {d : Deployment σ} (E : ExactEngine d) (b : Bool) :
    ExactEngine (d.withConceptLookup b) where
  toListIndex := E.toListIndex
  docs := E.docs
  base := E.base
  resolve := E.resolve
  resolve_reference := E.resolve_reference
  answers := E.answers
  stores := E.stores
  docs_search := E.docs_search
  docs_store := E.docs_store
  docs_refresh := E.docs_refresh

namespace Deployment

variable (d : Deployment σ)

/-- What conditions mean has nothing to do with lookups of concepts. -/
theorem lexicon_withConceptLookup (b : Bool) (w : World σ) (M : Matching) (docs : List (Int × Indexed)) :
    (d.withConceptLookup b).lexicon w M docs = d.lexicon w M docs := by
  have hleaf : ∀ p depth, (d.withConceptLookup b).leafClause p depth = d.leafClause p depth :=
    fun p depth => funext fun leaf => by
      cases leaf with
      | value | thing => simp only [leafClause, compileProperty]; rfl
      | conjunction | disjunction | category | concept | space | someProperty => rfl
  unfold lexicon
  rw [standingClause_withConceptLookup]
  simp only [hleaf]
  rfl

/-- The end of a compilation, seen with or without lookups of concepts. -/
def hindsight (E : ExactEngine d)
    (hcache : d.cache.IsUsable .waiting d.settings.subquery.lifetimeSeconds)
    (hconcepts : d.cache.IsUsable .waiting d.settings.subquery.conceptLifetimeSeconds)
    (docs : List (Int × Indexed)) (w : World σ) {meant : String → Sense}
    (hmeant : (d.lexicon w E.base docs).Interprets w.catalog.concepts meant)
    (hacyclic : ∀ hash, ¬ TransGen (Concepts.RefersTo w.catalog.concepts) hash hash)
    (hnumbers : w.catalog.NumbersConcepts) (hids : E.base.Identifies docs) (b : Bool) :
    Hindsight (d.withConceptLookup b) where
  engine := E.withConceptLookup b
  docs := docs
  world := w
  meant := meant
  interprets := by
    show ((d.withConceptLookup b).lexicon w E.base docs).Interprets w.catalog.concepts meant
    rwa [lexicon_withConceptLookup]
  isAcyclic := hacyclic
  numbers := hnumbers
  identifies := hids
  isUsable := hcache
  isUsableForConcepts := hconcepts

/-- Whether the members of concepts are looked up or not, the query of a description selects the same
documents, and there is one unless a time in the description or in a stored one cannot be compared or
written. This holds for any thresholds, if the cache is empty in the beginning, the engine answers
exactly and finds every document by its number, references among concepts lead into no cycle, no
property is followed from object to subject, no lookup finds more than it asks for and the digest tells
the lookups apart. -/
theorem compile_materialized (E : ExactEngine d)
    (hcache : d.cache.IsUsable .waiting d.settings.subquery.lifetimeSeconds)
    (hconcepts : d.cache.IsUsable .waiting d.settings.subquery.conceptLifetimeSeconds)
    {w : World σ} (hempty : ∀ full, w.kept d full = none) (hids : E.base.Identifies (E.docs w.engine))
    (hnumbers : w.catalog.NumbersConcepts)
    (hacyclic : ∀ hash, ¬ TransGen (Concepts.RefersTo w.catalog.concepts) hash hash)
    (hstored : ∀ hash inner, Concepts.definition? w.catalog.concepts hash = some inner →
      inner.isDirect = true)
    {description : Description} (hdirect : description.isDirect = true) (isMember : Bool) :
    (∀ b, ((d.withConceptLookup b).compile isMember description).Meets w fun r _ =>
      ∀ e, r = .error e → description.HasIllegible w.catalog.concepts) ∧
    ∀ query query' progress progress' after after',
      ((d.withConceptLookup true).compile isMember description).outcome w =
        (.ok (query, progress), after) →
      ((d.withConceptLookup false).compile isMember description).outcome w =
        (.ok (query', progress'), after') →
      (d.withConceptLookup true).FitsWith w.catalog progress.records →
      (d.withConceptLookup false).FitsWith w.catalog progress'.records →
      ∀ x ∈ E.docs w.engine, Clause.selects (E.matching after.engine) x.2 query =
        Clause.selects (E.matching after'.engine) x.2 query' := by
  have hcomes : ∀ v : World σ, w.catalog.Grows v.catalog → ∃ sense : Sense, ∀ b,
      ((d.withConceptLookup b).compile isMember description).Meets w fun r after =>
        (∀ e, r = .error e → description.HasIllegible w.catalog.concepts) ∧
        ∀ query progress, r = .ok (query, progress) → after.catalog.Grows v.catalog →
          (d.withConceptLookup b).FitsWith v.catalog progress.records → ∀ x ∈ E.docs w.engine,
            Clause.selects (E.matching after.engine) x.2 query = sense.describes x.2 := by
    intro v hgrows
    rw [← hgrows.concepts] at hacyclic hstored
    obtain ⟨meant, hmeant⟩ :=
      @Lexicon.exists_interprets (d.lexicon v E.base (E.docs w.engine)) v.catalog.concepts hacyclic
    refine ⟨(d.lexicon v E.base (E.docs w.engine)).meaning meant description, fun b => ?_⟩
    let H := d.hindsight E hcache hconcepts (E.docs w.engine) v hmeant hacyclic
      (hnumbers.of_grows hgrows) hids b
    have hfails : H.Stored (description.HasIllegible w.catalog.concepts) := fun hash inner hdefinition =>
      ⟨hstored hash inner hdefinition, fun time htime hlegible => ⟨time, hlegible, .inr ⟨hash, inner,
        by rwa [← hgrows.concepts], htime⟩⟩⟩
    have hsuits : H.Suits [] (description.HasIllegible w.catalog.concepts) description :=
      ⟨hdirect, fun time htime hlegible => ⟨time, hlegible, .inl htime⟩, by rintro _ ⟨⟩⟩
    have hmeets := H.meets_compile hfails hsuits isMember (w := w) rfl hgrows.concepts.symm hempty
    have hlexicon : H.lexicon = d.lexicon v E.base (E.docs w.engine) :=
      d.lexicon_withConceptLookup b _ _ _
    rw [hlexicon] at hmeets
    exact hmeets
  refine ⟨fun b => ?_, fun query query' progress progress' after after' hon hoff hfits hfits' x hx => ?_⟩
  · obtain ⟨sense, hsense⟩ := hcomes w (.refl _)
    exact (hsense b).mono fun r _ h => h.1
  · obtain ⟨hgrows, hsame⟩ := d.catalog_compile_eq hnumbers hstored hdirect isMember hon hoff
    obtain ⟨sense, hsense⟩ := hcomes after hgrows
    have hleft := ((hsense true).of_outcome hon).2 query progress rfl (.refl _)
      (hfits.of_grows hnumbers hgrows) x hx
    have hright := ((hsense false).of_outcome hoff).2 query' progress' rfl (by rw [hsame]; exact .refl _)
      (hfits'.of_grows hnumbers hgrows) x hx
    rw [hleft, hright]

private def hamlets : Entity := { title := "Hamlets", space := 108 }

/-- The hamlets are what is in the main namespace. -/
private def hamletText : String := "\x7b\"type\": \"namespace\", \"namespace\": 0\x7d"

/-- The members of a concept are stored, however few they are. -/
private def hamletStore : Deployment Archive :=
  Archive.deployment { subquery := { conceptThreshold := 1 } }

/-- A hamlet, and something else. -/
private def hamletArchive : Archive where
  docs := [
    (1, fun field => if field = "_id" then [.int 1]
      else if field = "subject.namespace" then [.int 0] else []),
    (2, fun field => if field = "_id" then [.int 2] else [])]

private def hamletCatalog : Catalog where
  next := 100
  numbers := [(.entity "Hamlets#108##", 7)]
  concepts := [("Hamlets#108##", hamletText)]

private def hamletWorld : World Archive := { engine := hamletArchive, catalog := hamletCatalog }

private def hamletClause : Json := Clause.compound .filter [Clause.term "subject.namespace" (.int 0)]

private def hamletLookup : Lookup :=
  hamletStore.conceptLookup (.int 7) (Description.space 0).fingerprint hamletClause

private def hamletResolved : Resolved :=
  ⟨hamletStore.hasNumber "_id" (Clause.reference "semindex-lookup" hamletLookup.id "id"),
    [("concept_lookup_query", .str "Hamlets#108## → [[+]]"), ("query", .obj hamletLookup.body),
      ("count", .int 1), ("is_from_cache", .bool false)]⟩

private theorem parse_hamletText : Description.parse hamletText = .ok (.space 0) := by
  have hjson : Json.parseFilled? Json.storedDepth hamletText =
      some (.obj [("type", .str "namespace"), ("namespace", .int 0)]) := by decide +kernel
  unfold Description.parse
  rw [hjson]
  rfl

private theorem hamlet_definition {hash : String} {inner : Description}
    (h : Concepts.definition? hamletWorld.catalog.concepts hash = some inner) : inner = .space 0 := by
  unfold Concepts.definition? at h
  split at h
  · cases h
  · cases h
  · rename_i stored _ hget
    have hstored : stored = hamletText := by
      have hkey : Table.get? [("Hamlets#108##", hamletText)] hash = some stored := hget
      rw [Table.get?_cons] at hkey
      split at hkey
      · exact (Option.some.inj hkey).symm
      · cases hkey
    rw [hstored, parse_hamletText] at h
    exact (Option.some.inj h).symm

private theorem hamlet_acyclic (hash : String) :
    ¬ TransGen (Concepts.RefersTo hamletWorld.catalog.concepts) hash hash := by
  intro hcycle
  obtain ⟨other, ⟨inner, hdefinition, e, he, -⟩, -⟩ := TransGen.head'_iff.mp hcycle
  rw [hamlet_definition hdefinition, Description.concepts] at he
  cases he

private theorem hamlet_numbers : hamletWorld.catalog.NumbersConcepts where
  known hash hmem := by
    have hsame : hash = "Hamlets#108##" := List.mem_singleton.mp hmem
    exact ⟨7, by rw [hsame]; rfl⟩
  distinct hash hmem hash' hmem' _ _ _ := by
    have hsame : hash = "Hamlets#108##" := List.mem_singleton.mp hmem
    have hsame' : hash' = "Hamlets#108##" := List.mem_singleton.mp hmem'
    rw [hsame, hsame']

private theorem hamlet_identifies : Archive.base.Identifies hamletArchive.docs where
  hasId := by simp [hamletArchive, Matching.hasValue, Archive.base]
  unique := by simp [hamletArchive]

/-- What is left of the compilation is the lookup, if there is one. -/
private theorem outcome_hamlets (b : Bool) :
    ((hamletStore.withConceptLookup b).compileNode ((hamletStore.withConceptLookup b).expandConcept 2)
      false [] (.concept hamlets)).outcome (hamletWorld, {}) =
        ((hamletStore.withConceptLookup b).conceptClause hamlets (.space 0) (some hamletClause)).outcome
          (hamletWorld, {}) := by
  have hvisit : ((hamletStore.withConceptLookup b).visit (.concept hamlets)).outcome (hamletWorld, {}) =
      (.ok (), (hamletWorld, {})) := rfl
  have hcatalog : (act catalog : Compiling Archive Catalog).outcome (hamletWorld, {}) =
      (.ok hamletCatalog, (hamletWorld, {})) := rfl
  have hquery : hamletCatalog.query? hamlets = some hamletText := by decide +kernel
  have hexpanding : (expandingOf hamlets.hash ((hamletStore.withConceptLookup b).compileNode
      ((hamletStore.withConceptLookup b).expandConcept 1) false [0] (.space 0))).outcome
        (hamletWorld, {}) = (.ok (some hamletClause), (hamletWorld, {})) := by
    rw [outcome_expandingOf, compileNode]
    rfl
  rw [compileNode, outcome_bind_of_ok hvisit, expandConcept]
  unfold compileConcept
  rw [outcome_bind_of_ok hcatalog, hquery]
  split
  · rename_i hnone
    cases hnone
  · rename_i hempty
    exact absurd (Option.some.inj hempty) (by decide +kernel)
  · rename_i hstored
    cases hstored
    rw [parse_hamletText]
    dsimp only
    rw [outcome_bind_of_ok (outcome_progress _)]
    have hcheck : (([] : List String).contains hamlets.hash ||
        Description.refersTo hamlets.hash (.space 0)) = false := rfl
    simp only [hcheck, Bool.false_eq_true, if_false]
    exact outcome_bind_of_ok hexpanding _

private theorem hamlet_resolved : ∃ after, (hamletStore.lookupConcept hamlets (.int 7) (.space 0)
    hamletClause).outcome hamletWorld = (.ok hamletResolved, after) := by
  have htext : (Description.space 0).queryText = .ok "[[+]]" := by decide +kernel
  have hhash : hamlets.hash = "Hamlets#108##" := by decide +kernel
  have hbody : hamletLookup.body = hamletStore.lookupBody (wrapped hamletClause true) (.bool false) := rfl
  have hresolve : (hamletLookup.resolve hamletStore).outcome hamletWorld = _ :=
    Archive.resolve_eq rfl hbody rfl
  have hselected : hamletWorld.engine.selected (wrapped hamletClause true) = [1] := by
    have hwrapped : wrapped hamletClause true =
        Clause.constantScore (Clause.compound .must [hamletClause]) := rfl
    rw [hwrapped]
    simp [Archive.selected, hamletWorld, hamletArchive, Clause.holds_constantScore, hamletClause,
      Matching.hasValue, Archive.base]
  rw [hselected] at hresolve
  unfold lookupConcept
  rw [htext, hhash]
  exact ⟨_, outcome_bind_of_ok hresolve _⟩

private theorem hamlet_run : ∃ after, ((hamletStore.withConceptLookup true).compile false
    (.concept hamlets)).outcome hamletWorld =
      (.ok (some hamletResolved.clause, { records := [hamletResolved.record] }), after) := by
  obtain ⟨after, hresolved⟩ := hamlet_resolved
  have hclause : ((hamletStore.withConceptLookup true).conceptClause hamlets (.space 0)
      (some hamletClause)).outcome (hamletWorld, {}) =
        (.ok (some hamletResolved.clause), (after, { records := [hamletResolved.record] })) := by
    have hnumber : (act (numberOf (.entity hamlets))).outcome (hamletWorld, ({} : Progress)) =
        (.ok 7, (hamletWorld, {})) := by
      have hknown : hamletCatalog.numbers.get? (Numbered.entity hamlets).key = some 7 := by decide +kernel
      rw [outcome_act]
      simp only [numberOf, outcome_make, hamletWorld, Catalog.number_of_known _ _ hknown]
    unfold conceptClause
    dsimp only
    rw [show (hamletStore.withConceptLookup true).settings.query.conceptLookup = true from rfl]
    simp only [Bool.not_true, Bool.false_eq_true, if_false]
    rw [outcome_bind_of_ok hnumber]
    exact outcome_bind_of_ok (outcome_lookUp_of_ok (s := (hamletWorld, {})) hresolved) _
  refine ⟨after, ?_⟩
  rw [outcome_compile, show hamletWorld.catalog.concepts.length + 1 = 2 from rfl, outcome_hamlets,
    hclause]
  rfl

private theorem hamlet_run_plain : ((hamletStore.withConceptLookup false).compile false
    (.concept hamlets)).outcome hamletWorld = (.ok (some hamletClause, {}), hamletWorld) := by
  rw [outcome_compile, show hamletWorld.catalog.concepts.length + 1 = 2 from rfl, outcome_hamlets]
  rfl

private theorem hamlet_fits : (hamletStore.withConceptLookup true).FitsWith hamletCatalog
    [hamletResolved.record] where
  count record hrecord n hn := by
    obtain rfl := List.mem_singleton.mp hrecord
    cases hn
    decide
  apart := by
    have hdefinition : Concepts.definition? hamletCatalog.concepts "Hamlets#108##" = some (.space 0) := by
      have hget : hamletCatalog.concepts.get? "Hamlets#108##" = some hamletText := by decide +kernel
      unfold Concepts.definition?
      rw [hget]
      split
      · rename_i hnone
        cases hnone
      · rename_i hempty
        exact absurd (Option.some.inj hempty) (by decide +kernel)
      · rename_i hstored
        cases hstored
        rw [parse_hamletText]
        rfl
    have hnumber : hamletCatalog.numbers.get? (.entity "Hamlets#108##") = some 7 := by decide +kernel
    have hconcept : (hamletStore.withConceptLookup true).digestedOfConcept hamletCatalog "Hamlets#108##" =
        [.int 7, Json.ofTexts [plainHash (.int 7), "1", (Description.space 0).fingerprint]] := by
      unfold digestedOfConcept
      rw [hnumber, hdefinition]
      rfl
    have hvalues : (hamletStore.withConceptLookup true).digestedValues hamletCatalog
        [hamletResolved.record] =
          [.int 7, Json.ofTexts [plainHash (.int 7), "1", (Description.space 0).fingerprint]] := by
      rw [← hconcept]
      exact List.append_nil _
    have hne : structuralHash (.int 7) ≠ structuralHash
        (Json.ofTexts [plainHash (.int 7), "1", (Description.space 0).fingerprint]) := by
      decide +kernel
    rw [hvalues]
    simp only [List.mem_cons, List.not_mem_nil, or_false]
    rintro v (rfl | rfl) v' (rfl | rfl) h
    · rfl
    · exact absurd h hne
    · exact absurd h.symm hne
    · rfl

theorem compile_materialized_hamlets :
    hamletStore.cache.IsUsable .waiting hamletStore.settings.subquery.lifetimeSeconds ∧
      hamletStore.cache.IsUsable .waiting hamletStore.settings.subquery.conceptLifetimeSeconds ∧
      (∀ full, hamletWorld.kept hamletStore full = none) ∧
      Archive.base.Identifies hamletArchive.docs ∧ hamletCatalog.NumbersConcepts ∧
      (∀ hash, ¬ TransGen (Concepts.RefersTo hamletCatalog.concepts) hash hash) ∧
      (∀ hash inner, Concepts.definition? hamletCatalog.concepts hash = some inner →
        inner.isDirect = true) ∧
      (Description.concept hamlets).isDirect = true ∧
      ∃ query query' progress progress' after after',
        ((hamletStore.withConceptLookup true).compile false (.concept hamlets)).outcome hamletWorld =
          (.ok (query, progress), after) ∧
        ((hamletStore.withConceptLookup false).compile false (.concept hamlets)).outcome hamletWorld =
          (.ok (query', progress'), after') ∧
        (hamletStore.withConceptLookup true).FitsWith hamletCatalog progress.records ∧
        (hamletStore.withConceptLookup false).FitsWith hamletCatalog progress'.records ∧
        query ≠ query' ∧
        ∀ x ∈ hamletArchive.docs,
          Clause.selects ((Archive.exact hamletStore.settings).matching after.engine) x.2 query =
            Clause.selects ((Archive.exact hamletStore.settings).matching after'.engine) x.2 query' := by
  have husable : ∀ seconds, hamletStore.cache.IsUsable .waiting seconds := by rintro _ _ _ ⟨⟩
  have hempty : ∀ full, hamletWorld.kept hamletStore full = none := fun _ => rfl
  have hdirect : ∀ hash inner, Concepts.definition? hamletCatalog.concepts hash = some inner →
      inner.isDirect = true := by
    intro hash inner hdefinition
    rw [hamlet_definition hdefinition]
    rfl
  have hfits : (hamletStore.withConceptLookup false).FitsWith hamletCatalog [] :=
    ⟨by rintro _ ⟨⟩, by rintro _ ⟨⟩⟩
  obtain ⟨after, hrun⟩ := hamlet_run
  have hconcept : (Description.concept hamlets).isDirect = true := rfl
  have hsame := (compile_materialized hamletStore (Archive.exact _) (husable _) (husable _) hempty
    hamlet_identifies hamlet_numbers hamlet_acyclic hdirect hconcept false).2 _ _ _ _ _ _ hrun
      hamlet_run_plain hamlet_fits hfits
  exact ⟨husable _, husable _, hempty, hamlet_identifies, hamlet_numbers, hamlet_acyclic, hdirect,
    hconcept, _, _, _, _, after, _, hrun, hamlet_run_plain, hamlet_fits, hfits, by decide +kernel, hsame⟩

end Deployment

end FactIndex
