import FactIndex.Proofs.Compile.Clauses
import FactIndex.Proofs.Compile.ConceptGraph

/-!
# Compiled queries are well-formed

A compilation comes to no query at all or to one of the grammar, and so do the queries of the searches
that it sends for its lookups, whatever the search engine and the cache answer. For this every category
node has to have a category, in the description as well as in the stored queries of concepts.

## Main definitions

* `Description.HasCategories`: there is a category wherever there should be one.
* `Deployment.yields_node`, `Deployment.yields_expandConcept`: the traversal.
* `Deployment.isQuery_compile`: the query of a description and the queries of its lookups.
-/

namespace FactIndex

open FactIndex.Effect

variable {σ : Type}

namespace Description

mutual

/-- Every category node of a description has a category. -/
def HasCategories : Description → Prop
  | .conjunction ds => AllHaveCategories ds
  | .disjunction ds => AllHaveCategories ds
  | .category categories _ _ => categories ≠ []
  | .someProperty _ inner _ => inner.HasCategories
  | .concept _ | .space _ | .value _ _ _ | .thing _ => True

/-- Every category node of several descriptions has a category. -/
def AllHaveCategories : List Description → Prop
  | [] => True
  | d :: ds => d.HasCategories ∧ AllHaveCategories ds

end

end Description

namespace Deployment

open Compiling Clause

variable {t : Table String String} (d : Deployment σ)

/-! ## The traversal -/

/-- Concepts are expanded to queries of the grammar. -/
def ExpandsWell (t : Table String String) (expand : Expansion σ) : Prop :=
  ∀ isMember path (c : Entity), Yields t AreQueries (expand isMember path c)

/-- A property before another one: what lies behind it is compiled in between. -/
theorem yields_chained {x : String → Compiling σ (Option Json)}
    (h : ∀ field, Yields t AreQueries (x field)) (chain : Option String) (p : Property)
    (depth : Option Int) (rest : Description) :
    Yields t AreQueries (do
      let site ← .act (d.propertySite p depth)
      let clause ← x (Field.inGroup site.1 Field.numbers)
      let clause ← d.chainClause p (Field.inGroup site.1 Field.numbers) rest clause
      d.linked chain p (.someProperty p rest depth) clause) :=
  (d.yields_propertySite _ _).bind fun _ _ => (h _).bind fun _ hclause =>
    (d.yields_chainClause _ _ _ hclause).bind fun _ hclause => d.yields_linked _ _ _ hclause

/-- A property whose values are described by several clauses, which have to be looked up. -/
theorem yields_looked (chain : Option String) (p : Property) (whole : Description)
    (group text : String) {clauses : List Json} (h : ∀ c ∈ clauses, IsQuery c) :
    Yields t AreQueries (do d.linked chain p whole (← d.objectClause p group text clauses)) :=
  (d.yields_objectClause _ _ _ h).bind fun _ hclause => d.yields_linked _ _ _ hclause

mutual

/-- By induction on the description: its compilation keeps to the grammar. -/
theorem yields_node {expand : Expansion σ} (h : ExpandsWell t expand) (isMember : Bool)
    (path : List Nat) : (node : Description) → node.HasCategories →
    Yields t AreQueries (d.compileNode expand isMember path node)
  | .conjunction ds, hds => by
      refine (d.yields_visit _).bind_any fun _ => (yields_members h path 0 ds hds).bind
        fun clauses hclauses => Yields.pure (areQueries_joined _ fun c hc => ?_)
      obtain ⟨m, hm, rfl⟩ := List.mem_map.mp hc
      exact hclauses m hm
  | .disjunction ds, hds => by
      exact (d.yields_visit _).bind_any fun _ => (yields_members h path 0 ds hds).bind
        fun _ hclauses => yields_disjoined hclauses
  | .category categories depth negated, hne => by
      exact (d.yields_visit _).bind_any fun _ =>
        (d.yields_categoryClause isMember negated depth hne).bind fun _ hclause =>
          Yields.pure (areQueries_some hclause)
  | .concept c, _ => by
      exact (d.yields_visit _).bind_any fun _ => h isMember path c
  | .space n, _ => by
      have hplaced := isQuery_placed isMember false true
        (.leaf (isLeaf_term "subject.namespace" (.int n)))
      exact (d.yields_visit _).bind_any fun _ => Yields.pure (areQueries_some hplaced)
  | .someProperty p inner depth, hinner => by
      exact (d.yields_visit _).bind_any fun _ => yields_property h path none p depth inner hinner
  | .value item comparator property, _ => by
      exact (d.yields_visit _).bind_any fun _ => (d.yields_entityClause _ _ _ _).bind
        fun _ hclause => Yields.pure (areQueries_some hclause)
  | .thing negated, _ => by
      refine (d.yields_visit _).bind_any fun _ => Yields.pure ?_
      cases negated with
      | false => exact areQueries_none
      | true => exact areQueries_some (.leaf isLeaf_nothing)

theorem yields_members {expand : Expansion σ} (h : ExpandsWell t expand) (path : List Nat) :
    (i : Nat) → (ds : List Description) → Description.AllHaveCategories ds →
    Yields t (fun clauses => ∀ m ∈ clauses, IsQuery m.2) (d.compileMembers expand path i ds)
  | _, [], _ => Yields.pure fun _ hm => nomatch hm
  | i, m :: ms, hds => by
      refine (yields_node h true (path ++ [i]) m hds.1).bind fun clause hclause =>
        (yields_members h path (i + 1) ms hds.2).bind fun rest hrest => Yields.pure ?_
      cases clause with
      | none => exact hrest
      | some clause => exact List.forall_mem_cons.mpr ⟨hclause clause rfl, hrest⟩

theorem yields_property {expand : Expansion σ} (h : ExpandsWell t expand) (path : List Nat)
    (chain : Option String) (p : Property) (depth : Option Int) :
    (inner : Description) → inner.HasCategories →
    Yields t AreQueries (d.compileProperty expand path chain p depth inner)
  | .someProperty q (.disjunction ds) qdepth, hds => by
      exact (d.yields_propertySite _ _).bind fun _ _ =>
        (yields_alternatives h (path ++ [0]) _ q qdepth 0 ds hds).bind fun _ hclauses =>
          (d.yields_chainClause _ _ _ (areQueries_joined _ hclauses)).bind fun _ hclause =>
            d.yields_linked _ _ _ hclause
  | .someProperty q (.conjunction ds) qdepth, hds =>
      d.yields_chained (fun field => yields_property h _ (some field) q qdepth (.conjunction ds) hds)
        chain p depth _
  | .someProperty q (.category cs cdepth negated) qdepth, hne =>
      d.yields_chained (fun field => yields_property h _ (some field) q qdepth
        (.category cs cdepth negated) hne) chain p depth _
  | .someProperty q (.concept c) qdepth, hc =>
      d.yields_chained (fun field => yields_property h _ (some field) q qdepth (.concept c) hc)
        chain p depth _
  | .someProperty q (.space n) qdepth, hn =>
      d.yields_chained (fun field => yields_property h _ (some field) q qdepth (.space n) hn)
        chain p depth _
  | .someProperty q (.someProperty q' inner' depth') qdepth, hinner =>
      d.yields_chained (fun field => yields_property h _ (some field) q qdepth
        (.someProperty q' inner' depth') hinner) chain p depth _
  | .someProperty q (.value item comparator property) qdepth, hv =>
      d.yields_chained (fun field => yields_property h _ (some field) q qdepth
        (.value item comparator property) hv) chain p depth _
  | .someProperty q (.thing negated) qdepth, hn =>
      d.yields_chained (fun field => yields_property h _ (some field) q qdepth (.thing negated) hn)
        chain p depth _
  | .value item comparator property, _ => by
      exact (d.yields_propertySite _ _).bind fun site hsite =>
        (d.yields_valueClause path p hsite item comparator property).bind fun clause hclause =>
          d.yields_linked _ _ _ (areQueries_some hclause)
  | .thing negated, _ => by
      exact (d.yields_propertySite _ _).bind fun site hsite =>
        d.yields_linked _ _ _ (areQueries_some (isQuery_presenceClause p hsite negated))
  | .disjunction ds, hds => by
      refine (d.yields_propertySite _ _).bind fun _ _ =>
        (yields_alternatives h (path ++ [0]) none p depth 0 ds hds).bind fun clauses hclauses =>
          d.yields_linked _ _ _ ?_
      intro clause hclause
      obtain ⟨whole, hwhole, rfl⟩ := Option.map_eq_some_iff.mp hclause
      exact (areQueries_joined _ hclauses whole hwhole).alone _
  | .conjunction ds, hds => by
      refine (d.yields_propertySite _ _).bind fun _ _ => Yields.ofExcept_bind fun _ _ =>
        (yields_members h (path ++ [0]) 0 ds hds).bind fun clauses hclauses =>
          d.yields_looked _ _ _ _ _ fun c hc => ?_
      obtain ⟨m, hm, rfl⟩ := List.mem_map.mp hc
      exact hclauses m hm
  | .category categories categoryDepth negated, hne => by
      exact (d.yields_propertySite _ _).bind fun _ _ => Yields.ofExcept_bind fun _ _ =>
        (d.yields_visit _).bind_any fun _ =>
          (d.yields_categoryClause true negated categoryDepth hne).bind fun _ hclause =>
            d.yields_looked _ _ _ _ _ (List.forall_mem_singleton.mpr hclause)
  | .concept c, _ => by
      refine (d.yields_propertySite _ _).bind fun _ _ => Yields.ofExcept_bind fun _ _ =>
        (d.yields_visit _).bind_any fun _ => (h true (path ++ [0]) c).bind fun clause hclause =>
          d.yields_looked _ _ _ _ _ fun query hquery => ?_
      exact hclause query (Option.mem_toList.mp hquery)
  | .space n, _ => by
      exact (d.yields_propertySite _ _).bind fun _ _ => Yields.ofExcept_bind fun _ _ =>
        (d.yields_visit _).bind_any fun _ => d.yields_looked _ _ _ _ _
          (List.forall_mem_singleton.mpr (.leaf (isLeaf_term _ _)))

theorem yields_alternatives {expand : Expansion σ} (h : ExpandsWell t expand) (path : List Nat)
    (chain : Option String) (p : Property) (depth : Option Int) :
    (i : Nat) → (ds : List Description) → Description.AllHaveCategories ds →
    Yields t (fun clauses => ∀ c ∈ clauses, IsQuery c)
      (d.compileAlternatives expand path chain p depth i ds)
  | _, [], _ => Yields.pure fun _ hc => nomatch hc
  | i, m :: ms, hds => by
      refine (yields_property h (path ++ [i]) chain p depth m hds.1).bind fun clause hclause =>
        (yields_alternatives h path chain p depth (i + 1) ms hds.2).bind fun rest hrest =>
          Yields.pure fun c hc => ?_
      exact (List.mem_append.mp hc).elim (fun hc => hclause c (Option.mem_toList.mp hc)) (hrest c)

end

/-- The stored queries that can be read have a category wherever there should be one. -/
def StoredHaveCategories (t : Table String String) : Prop :=
  ∀ hash inner, Concepts.definition? t hash = some inner → inner.HasCategories

/-- The expansion of a concept keeps to the grammar if the compilations of stored descriptions do. -/
theorem yields_concept {compile : Bool → List Nat → Description → Compiling σ (Option Json)}
    (ht : StoredHaveCategories t)
    (h : ∀ isMember path inner, inner.HasCategories → Yields t AreQueries (compile isMember path inner)) :
    ExpandsWell t (d.compileConcept compile) := by
  have hnothing : AreQueries (some nothing) := areQueries_some (.leaf isLeaf_nothing)
  intro isMember path c
  unfold compileConcept
  refine Yields.catalog_bind fun catalog hcatalog => ?_
  split
  · exact Yields.pure areQueries_none
  · exact Yields.pure areQueries_none
  · rename_i stored hempty hquery
    split
    · exact Yields.ofExcept_bind fun _ _ => (Yields.note _).bind_any fun _ => Yields.pure hnothing
    · rename_i inner hparse
      have hget : t.get? c.hash = some stored := by rw [← hcatalog]; exact hquery
      have hinner : inner.HasCategories := by
        refine ht c.hash inner ?_
        unfold Concepts.definition?
        rw [hget]
        split
        · rename_i hnone
          cases hnone
        · rename_i hsome
          cases hsome
          exact absurd rfl hempty
        · rename_i hsome
          cases hsome
          rw [hparse]
          rfl
      refine Yields.progress.bind_any fun p => ?_
      split
      · exact Yields.ofExcept_bind fun _ _ => (Yields.note _).bind_any fun _ => Yields.pure hnothing
      · exact (h isMember (path ++ [0]) inner hinner).expandingOf.bind fun _ hclause =>
          d.yields_conceptClause _ _ hclause

/-- By induction on how many expansions may lie within each other. -/
theorem yields_expandConcept (ht : StoredHaveCategories t) (n : Nat) :
    ExpandsWell t (d.expandConcept n) := by
  induction n with
  | zero => exact fun _ _ _ => Yields.pure (areQueries_some (.leaf isLeaf_nothing))
  | succ n ih => exact d.yields_concept ht fun isMember path => d.yields_node ih isMember path

/-! ## The query of a search -/

/-- The query of a search is one of the grammar, or every document is asked for. -/
def IsSearch (query : Json) : Prop :=
  IsQuery query ∨ query = everything ∨ query = constantScore everything

/-- Without a clause every document is asked for, unless the fields to sort by have to be there. -/
theorem isSearch_searchClause (constantScore : Bool) (sorted : List String) {clause : Option Json}
    (h : AreQueries clause) : IsSearch (d.searchClause constantScore sorted clause) := by
  have hsorted : AreQueries (if d.settings.query.sortedExists && !sorted.isEmpty then
      some (compound .must (clause.toList ++ sorted.map hasField)) else clause) := by
    split
    · rename_i hgiven
      refine areQueries_some (.compound .must (fun hnil => ?_) fun c hc => ?_)
      · have hnone : sorted = [] := List.map_eq_nil_iff.mp (List.append_eq_nil_iff.mp hnil).2
        simp [hnone] at hgiven
      · rcases List.mem_append.mp hc with hc | hc
        · exact h c (Option.mem_toList.mp hc)
        · obtain ⟨field, -, rfl⟩ := List.mem_map.mp hc
          exact .leaf (isLeaf_hasField _)
    · exact h
  unfold searchClause
  dsimp only
  generalize (if d.settings.query.sortedExists && !sorted.isEmpty then
    some (compound .must (clause.toList ++ sorted.map hasField)) else clause) = clause at hsorted
  cases clause with
  | some clause =>
      cases constantScore with
      | false => exact .inl (hsorted clause rfl)
      | true => exact .inl (.constantScore (hsorted clause rfl))
  | none =>
      cases constantScore with
      | false => exact .inr (.inl rfl)
      | true => exact .inr (.inr rfl)

/-- No query of a search is an empty object. -/
theorem IsSearch.ne_empty {query : Json} (h : IsSearch query) : query ≠ .obj [] := by
  rcases h with h | rfl | rfl
  · exact h.ne_empty
  · simp [everything, Json.single]
  · simp [Clause.constantScore, Json.single]

theorem yields_compileTree (w : World σ) (isMember : Bool) {description : Description}
    (h : description.HasCategories) (hstored : StoredHaveCategories w.catalog.concepts) :
    Yields w.catalog.concepts AreQueries (d.compileTree isMember description) :=
  Yields.catalog_bind fun _ _ => d.yields_node (d.yields_expandConcept hstored _) isMember [] _ h

/-- Whatever the settings, the hierarchies, the stored queries and the answers of the search engine and
the cache are: compiling a description sends no searches but by queries of the grammar, even if it fails.
If it comes to a query, then to one of the grammar. The query of a search for the description is one of the
grammar as well, unless every document is asked for, and is never empty. -/
theorem isQuery_compile (w : World σ) (description : Description) (h : description.HasCategories)
    (hstored : StoredHaveCategories w.catalog.concepts) :
    (∀ isMember, w.SearchesOn ((d.compile isMember description).outcome w).2 ∧
      ∀ clause progress w', (d.compile isMember description).outcome w = (.ok (clause, progress), w') →
        ∀ query ∈ clause, IsQuery query) ∧
    ∀ constantScore sorted,
      w.SearchesOn ((d.searchFor description constantScore sorted).outcome w).2 ∧
      ∀ query progress w', (d.searchFor description constantScore sorted).outcome w =
        (.ok (query, progress), w') → IsSearch query ∧ query ≠ .obj [] := by
  have hcompile : ∀ isMember, (d.compile isMember description).Meets w fun r w' =>
      w.SearchesOn w' ∧ ∀ clause progress, r = .ok (clause, progress) → AreQueries clause := by
    intro isMember
    obtain ⟨-, hsent, hclause⟩ := d.yields_compileTree w isMember h hstored (w, {}) rfl
    unfold compile Meets
    rw [outcome_start]
    refine ⟨hsent, fun clause progress hr => ?_⟩
    rcases hx : ((d.compileTree isMember description).outcome (w, {})).1 with e | found
    · rw [hx] at hr
      cases hr
    · rw [hx] at hr
      cases hr
      exact hclause _ hx
  have hsearch : ∀ constantScore sorted, (d.searchFor description constantScore sorted).Meets w fun r w' =>
      w.SearchesOn w' ∧ ∀ query progress, r = .ok (query, progress) → IsSearch query := by
    intro constantScore sorted
    refine (hcompile false).bind ?_ fun e w' h => ⟨h.1, nofun⟩
    rintro ⟨clause, progress⟩ w' ⟨hsent, hclause⟩
    refine Meets.pure ⟨hsent, ?_⟩
    rintro _ _ ⟨⟩
    exact d.isSearch_searchClause constantScore sorted (hclause clause progress rfl)
  refine ⟨fun isMember => ⟨(hcompile isMember).1, fun clause progress w' hr => ?_⟩,
    fun constantScore sorted => ⟨(hsearch constantScore sorted).1, fun query progress w' hr => ?_⟩⟩
  · exact ((hcompile isMember).of_outcome hr).2 clause progress rfl
  · have hquery := ((hsearch constantScore sorted).of_outcome hr).2 query progress rfl
    exact ⟨hquery, hquery.ne_empty⟩

private def harbour : Entity := { title := "Harbour", space := 14 }

/-- The harbours are what is in the category. -/
private def harbourText : String :=
  "\x7b\"type\": \"class\", \"categories\": [\x7b\"title\": \"Harbour\", \"namespace\": 14\x7d]\x7d"

private def silentStore : Deployment Unit :=
  { client := ⟨fun _ s => (.ok (.obj []), s)⟩, cache := {}, queue := {} }

private def harbourCatalog : Catalog where
  next := 100
  numbers := [(.property "_INST", 4), (.entity "Harbour#14##", 7)]
  concepts := [("Harbours#108##", harbourText)]

private def harbourWorld : World Unit := { engine := (), catalog := harbourCatalog }

private theorem parse_harbourText : Description.parse harbourText = .ok (.category [harbour] none false) := by
  have hjson : Json.parseFilled? Json.storedDepth harbourText = some (.obj [("type", .str "class"),
      ("categories", .arr [.obj [("title", .str "Harbour"), ("namespace", .int 14)]])]) := by
    decide +kernel
  unfold Description.parse
  rw [hjson]
  rfl


private def harbourClause : Json := compound .should [term "P:4.wpgID" (.int 7)]

private theorem harbour_stored : StoredHaveCategories harbourWorld.catalog.concepts := by
  intro hash inner h
  unfold Concepts.definition? at h
  split at h
  · cases h
  · cases h
  · rename_i stored _ hget
    have hkey : Table.get? [("Harbours#108##", harbourText)] hash = some stored := hget
    rw [Table.get?_cons] at hkey
    split at hkey
    · rw [← Option.some.inj hkey, parse_harbourText] at h
      rw [← Option.some.inj h]
      exact List.cons_ne_nil _ _
    · cases hkey

/-- A single category has one clause. -/
private theorem outcome_harbour : (silentStore.compile false (.category [harbour] none false)).outcome
    harbourWorld = (.ok (some harbourClause, {}), harbourWorld) := by
  have hproperty : (numberOf (.property Property.instanceOf)).outcome harbourWorld = (.ok 4, harbourWorld) :=
    rfl
  have hnumbered : ([harbour].mapM fun c => do return (← numberOf (.entity c), c)).outcome harbourWorld =
      (.ok [(7, harbour)], harbourWorld) := rfl
  have hclause : (act (silentStore.categoryClause false [harbour] none false)).outcome
      (harbourWorld, ({} : Progress)) = (.ok harbourClause, (harbourWorld, {})) := by
    rw [outcome_act]
    unfold categoryClause
    rw [outcome_bind_of_ok hproperty]
    dsimp only
    rw [outcome_bind_of_ok hnumbered, List.mergeSort_singleton]
    rfl
  have hcatalog : (act catalog).outcome (harbourWorld, ({} : Progress)) =
      (.ok harbourWorld.catalog, (harbourWorld, {})) := rfl
  have hvisit : (silentStore.visit (.category [harbour] none false)).outcome (harbourWorld, {}) =
      (.ok (), (harbourWorld, {})) := rfl
  unfold compile compileTree
  rw [outcome_start, outcome_bind_of_ok hcatalog]
  dsimp only
  rw [compileNode, outcome_bind_of_ok hvisit, outcome_bind_of_ok hclause]
  rfl

theorem isQuery_compile_harbour :
    (Description.category [harbour] none false).HasCategories ∧
      StoredHaveCategories harbourWorld.catalog.concepts ∧
      harbourWorld.SearchesOn
        ((silentStore.compile false (.category [harbour] none false)).outcome harbourWorld).2 ∧
      (silentStore.compile false (.category [harbour] none false)).outcome harbourWorld =
        (.ok (some harbourClause, {}), harbourWorld) ∧
      IsQuery harbourClause := by
  have hcategory : (Description.category [harbour] none false).HasCategories := List.cons_ne_nil _ _
  obtain ⟨hsent, hquery⟩ :=
    (silentStore.isQuery_compile harbourWorld _ hcategory harbour_stored).1 false
  exact ⟨hcategory, harbour_stored, hsent, outcome_harbour, hquery _ _ _ outcome_harbour _ rfl⟩

end Deployment

end FactIndex
