import FactIndex.Proofs.Compile.Covering

/-!
# Where subproperties count

What lies below a property is looked up for every condition on the property. It counts where values are
compared, or are any values at all. Where the values are entities that have to be found first, it does not:
the clause asks for a value of the property itself, whatever lies below.

## Main definitions

* `Description.isPursued`: the descriptions of entities that have to be found.
* `Clause.Demands`: a clause that selects only documents with a value of a field.
* `Deployment.demands_property`: the condition on a property whose values have to be found.
* `Deployment.compile_subproperty`: where subproperties count, and where they do not.
-/

namespace FactIndex

open FactIndex.Calendar FactIndex.Effect FactIndex.Compiling

variable {σ : Type}

namespace Description

mutual

/-- An entity that has to be found first, or one of several such descriptions. -/
def isPursued : Description → Bool
  | .category _ _ _ | .space _ | .concept _ | .conjunction _ | .someProperty _ _ _ => true
  | .disjunction ds => arePursued ds
  | .value _ _ _ | .thing _ => false

/-- Whether each of several descriptions is of that kind. -/
def arePursued : List Description → Bool
  | [] => true
  | d :: ds => d.isPursued && arePursued ds

end

end Description

namespace Clause

/-- A clause selects only documents with a value of the field. -/
def Demands (field : String) (clause : Json) : Prop :=
  ∀ M doc, holds M doc clause = true → doc field ≠ []

theorem demands_compound {field : String} {occur : Occur} (hoccur : occur ≠ .mustNot) {clauses : List Json}
    (hne : clauses.isEmpty = false) (h : ∀ clause ∈ clauses, Demands field clause) :
    Demands field (compound occur clauses) := by
  intro M doc hholds
  obtain ⟨clause, hclause, hselects⟩ : ∃ clause ∈ clauses, holds M doc clause = true := by
    cases clauses with
    | nil => cases hne
    | cons clause clauses =>
        cases occur with
        | mustNot => exact absurd rfl hoccur
        | must | filter => exact ⟨clause, List.mem_cons_self, by simp_all⟩
        | should => simpa using hholds
  exact h clause hclause M doc hselects

end Clause

namespace Deployment

variable {d : Deployment σ} {p : Property} {depth : Option Int} {s t : World σ × Progress}

/-! ## Subproperties that do not count -/

theorem demands_hasNumber (field : String) (numbers : Json) :
    Clause.Demands field (d.hasNumber field numbers) := by
  have hterms : Clause.Demands field (Clause.terms field numbers) := by
    rintro M doc hholds hnone
    simp only [Clause.terms, Json.single, Clause.holds, Matching.leaf] at hholds
    cases hvalues : Clause.several numbers <;> rw [hvalues] at hholds <;>
      simp [Matching.hasValue, hnone] at hholds
  unfold hasNumber
  dsimp only
  split
  · exact fun M doc hholds => hterms M doc (by rwa [Clause.holds_constantScore] at hholds)
  · exact hterms

/-- What is looked up is asked for in a field. -/
theorem demands_resolved {l : Lookup} {field name title : String} {clause : Json}
    (h : (lookUp (d.resolved l field name title)).outcome s = (.ok clause, t)) :
    Clause.Demands field clause := by
  rcases hrun : (d.resolved l field name title).outcome s.1 with ⟨e | r, w⟩
  · rw [outcome_lookUp_of_error hrun] at h
    cases h
  · rw [outcome_lookUp_of_ok hrun] at h
    cases h
    obtain ⟨m, _, -, hr⟩ := exists_of_bind_ok hrun
    cases hr
    exact demands_hasNumber field _

theorem demands_linked {field : String} {q : Property} {whole : Description} {clause found : Option Json}
    (h : (d.linked (some field) q whole clause).outcome s = (.ok found, t)) :
    ∀ clause ∈ found, Clause.Demands field clause := by
  cases clause with
  | none =>
      cases h
      exact nofun
  | some clause =>
      obtain ⟨text, u, -, h⟩ := exists_of_bind_ok h
      obtain ⟨clause', v, hclause, h⟩ := exists_of_bind_ok h
      cases h
      rintro _ ⟨⟩
      exact demands_resolved hclause

/-- The members of a chain ask for the field before them. -/
theorem demands_links {field : String} {expand : Expansion σ} {path : List Nat} {q : Property}
    {qdepth : Option Int} {ds : List Description} {i : Nat} {found : List Json}
    (h : (d.compileAlternatives expand path (some field) q qdepth i ds).outcome s = (.ok found, t)) :
    ∀ clause ∈ found, Clause.Demands field clause := by
  induction ds generalizing s t i found with
  | nil =>
      rw [compileAlternatives] at h
      cases h
      exact nofun
  | cons m ms ih =>
      rw [compileAlternatives] at h
      obtain ⟨clause, u, hclause, h⟩ := exists_of_bind_ok h
      obtain ⟨rest, v, hrest, h⟩ := exists_of_bind_ok h
      cases h
      rw [compileProperty_linked] at hclause
      obtain ⟨unlinked, u', -, hlinked⟩ := exists_of_bind_ok hclause
      refine List.forall_mem_append.mpr ⟨fun clause hmem => ?_, ih hrest⟩
      exact demands_linked hlinked clause (Option.mem_toList.mp hmem)

theorem demands_joined {field : String} {clauses : List Json}
    (h : ∀ clause ∈ clauses, Clause.Demands field clause) :
    ∀ clause ∈ joined .should clauses, Clause.Demands field clause := by
  unfold joined
  split
  · exact nofun
  · rename_i hne
    rintro _ ⟨⟩
    exact Clause.demands_compound (by decide) (by simpa using hne) h

/-- Entities that clauses select are asked for in the field of the property. -/
theorem demands_objectClause (hdirect : p.inverse = false) (hpage : p.isPage = true) {group text : String}
    {clauses : List Json} {found : Option Json}
    (h : (d.objectClause p group text clauses).outcome s = (.ok found, t)) :
    ∀ clause ∈ found, Clause.Demands (Field.inGroup group Field.numbers) clause := by
  unfold objectClause at h
  simp only [hdirect, hpage, if_true, Bool.false_eq_true, if_false] at h
  split at h
  · cases h
    exact nofun
  · obtain ⟨clause, u, hclause, h⟩ := exists_of_bind_ok h
    cases h
    rintro _ ⟨⟩
    have hdemands := demands_resolved hclause
    exact Clause.demands_compound (by decide) rfl (List.forall_mem_singleton.mpr
      (Clause.demands_compound (by decide) rfl (List.forall_mem_singleton.mpr hdemands)))

/-- A property lies at the number that it has or is given. -/
theorem site_eq {site : String × List Int} (h : (act (d.propertySite p depth)).outcome s = (.ok site, t)) :
    site.1 = Field.group (s.1.catalog.number (.property p)).1 := by
  obtain ⟨lower, u, hsite⟩ := d.exists_propertySite_number p depth s.1
  rw [outcome_act, hsite] at h
  cases h
  rfl

/-- The clause for entities that have to be found asks for a value of the property itself. -/
theorem demands_entity (hdirect : p.inverse = false) (hpage : p.isPage = true) (expand : Expansion σ)
    (path : List Nat) {inner : Description} (hpursued : inner.isPursued = true)
    (hinner : ∀ ds, inner ≠ .disjunction ds) {found : Option Json}
    (h : (d.compileProperty expand path none p depth inner).outcome s = (.ok found, t)) :
    ∀ clause ∈ found, Clause.Demands
      (Field.inGroup (Field.group (s.1.catalog.number (.property p)).1) Field.numbers) clause := by
  have hobject : ∀ {site u text clauses clause v v' whole},
      (act (d.propertySite p depth)).outcome s = (.ok site, u) →
      (d.objectClause p site.1 text clauses).outcome v = (.ok clause, v') →
      (d.linked none p whole clause).outcome v' = (.ok found, t) → ∀ clause ∈ found, Clause.Demands
        (Field.inGroup (Field.group (s.1.catalog.number (.property p)).1) Field.numbers) clause := by
    intro site u text clauses clause v v' whole hsite hclause h
    rw [linked_none] at h
    cases h
    rw [← site_eq hsite]
    exact demands_objectClause hdirect hpage hclause
  cases inner with
  | thing | value => cases hpursued
  | disjunction ds => exact absurd rfl (hinner ds)
  | someProperty q inner qdepth =>
      by_cases hchain : ∀ ds, inner ≠ .disjunction ds
      · rw [d.compileProperty_chained expand path depth qdepth hdirect hchain] at h
        obtain ⟨site, u, hsite, h⟩ := exists_of_bind_ok h
        obtain ⟨clause, v, -, h⟩ := exists_of_bind_ok h
        rw [← site_eq hsite]
        exact demands_linked h
      · simp only [not_forall, not_not] at hchain
        obtain ⟨ds, rfl⟩ := hchain
        rw [compileProperty] at h
        obtain ⟨site, u, hsite, h⟩ := exists_of_bind_ok h
        obtain ⟨clauses, v, hclauses, h⟩ := exists_of_bind_ok h
        rw [chainClause_direct hdirect] at h
        obtain ⟨clause, v', hclause, h⟩ := exists_of_bind_ok h
        cases hclause
        rw [linked_none] at h
        cases h
        rw [← site_eq hsite]
        exact demands_joined (demands_links hclauses)
  | conjunction ds =>
      rw [compileProperty] at h
      obtain ⟨site, u, hsite, h⟩ := exists_of_bind_ok h
      obtain ⟨text, u₁, -, h⟩ := exists_of_bind_ok h
      obtain ⟨clauses, u₂, -, h⟩ := exists_of_bind_ok h
      obtain ⟨clause, u₃, hclause, h⟩ := exists_of_bind_ok h
      exact hobject hsite hclause h
  | category categories cdepth negated =>
      rw [compileProperty] at h
      obtain ⟨site, u, hsite, h⟩ := exists_of_bind_ok h
      obtain ⟨text, u₁, -, h⟩ := exists_of_bind_ok h
      obtain ⟨_, u₂, -, h⟩ := exists_of_bind_ok h
      obtain ⟨clauses, u₃, -, h⟩ := exists_of_bind_ok h
      obtain ⟨clause, u₄, hclause, h⟩ := exists_of_bind_ok h
      exact hobject hsite hclause h
  | concept e =>
      rw [compileProperty] at h
      obtain ⟨site, u, hsite, h⟩ := exists_of_bind_ok h
      obtain ⟨text, u₁, -, h⟩ := exists_of_bind_ok h
      obtain ⟨_, u₂, -, h⟩ := exists_of_bind_ok h
      obtain ⟨clauses, u₃, -, h⟩ := exists_of_bind_ok h
      obtain ⟨clause, u₄, hclause, h⟩ := exists_of_bind_ok h
      exact hobject hsite hclause h
  | space n =>
      rw [compileProperty] at h
      obtain ⟨site, u, hsite, h⟩ := exists_of_bind_ok h
      obtain ⟨text, u₁, -, h⟩ := exists_of_bind_ok h
      obtain ⟨_, u₂, -, h⟩ := exists_of_bind_ok h
      obtain ⟨clause, u₃, hclause, h⟩ := exists_of_bind_ok h
      exact hobject hsite hclause h

mutual

/-- By induction on the description of the values: where they are entities that have to be found, the clause
asks for a value of the property itself. -/
theorem demands_property (hdirect : p.inverse = false) (hpage : p.isPage = true) (k : Nat) (path : List Nat)
    {n : Int} : (inner : Description) → inner.isPursued = true →
    ∀ s : World σ × Progress, (s.1.catalog.number (.property p)).1 = n →
    ∀ found t, (d.compileProperty (d.expandConcept k) path none p depth inner).outcome s = (.ok found, t) →
    ∀ clause ∈ found, Clause.Demands (Field.inGroup (Field.group n) Field.numbers) clause
  | .disjunction ds, hpursued => by
      intro s hn found t h
      rw [compileProperty] at h
      obtain ⟨site, u, hsite, h⟩ := exists_of_bind_ok h
      obtain ⟨clauses, v, hclauses, h⟩ := exists_of_bind_ok h
      dsimp only at h
      rw [linked_none] at h
      cases h
      obtain ⟨lower, c, hsite', -, hown, -⟩ := d.exists_propertySite_reach p depth s.1
      rw [outcome_act, hsite'] at hsite
      cases hsite
      have hdemands := demands_joined
        (demands_alternatives hdirect hpage k (path ++ [0]) 0 ds hpursued _ (hn ▸ hown) _ _ hclauses)
      intro clause hclause
      obtain ⟨clause, hjoined, rfl⟩ := Option.map_eq_some_iff.mp hclause
      exact Clause.demands_compound (by decide) rfl (List.forall_mem_singleton.mpr (hdemands clause hjoined))
  | .category categories cdepth negated, hpursued => by
      intro s hn found t h
      rw [← hn]
      exact demands_entity hdirect hpage _ path hpursued nofun h
  | .concept e, hpursued => by
      intro s hn found t h
      rw [← hn]
      exact demands_entity hdirect hpage _ path hpursued nofun h
  | .space space, hpursued => by
      intro s hn found t h
      rw [← hn]
      exact demands_entity hdirect hpage _ path hpursued nofun h
  | .conjunction ds, hpursued => by
      intro s hn found t h
      rw [← hn]
      exact demands_entity hdirect hpage _ path hpursued nofun h
  | .someProperty q inner qdepth, hpursued => by
      intro s hn found t h
      rw [← hn]
      exact demands_entity hdirect hpage _ path hpursued nofun h
  | .value _ _ _, hpursued | .thing _, hpursued => by simp [Description.isPursued] at hpursued

/-- From where the property has a number, each of several clauses asks for a value at that number. -/
theorem demands_alternatives (hdirect : p.inverse = false) (hpage : p.isPage = true) (k : Nat)
    (path : List Nat) {n : Int} (i : Nat) : (ds : List Description) → Description.arePursued ds = true →
    ∀ s : World σ × Progress, s.1.catalog.numberOf? (.property p) = some n → ∀ found t,
    (d.compileAlternatives (d.expandConcept k) path none p depth i ds).outcome s = (.ok found, t) →
    ∀ clause ∈ found, Clause.Demands (Field.inGroup (Field.group n) Field.numbers) clause
  | [], _ => by
      intro s hn found t h
      rw [compileAlternatives] at h
      cases h
      exact nofun
  | m :: ms, hpursued => by
      intro s hn found t h
      simp only [Description.arePursued, Bool.and_eq_true] at hpursued
      rw [compileAlternatives] at h
      obtain ⟨clause, u, hclause, h⟩ := exists_of_bind_ok h
      obtain ⟨rest, v, hrest, h⟩ := exists_of_bind_ok h
      cases h
      have hgrows := (isBuilt_property (d := d) (isBuilt_expandConcept k) (path ++ [i]) none p depth
        m).grows hclause
      have hfirst := demands_property hdirect hpage k (path ++ [i]) m hpursued.1 s
        (congrArg Prod.fst (Catalog.number_of_known _ _ hn)) _ _ hclause
      refine List.forall_mem_append.mpr ⟨fun clause hmem => hfirst clause (Option.mem_toList.mp hmem), ?_⟩
      exact demands_alternatives hdirect hpage k path (i + 1) ms hpursued.2 u (hgrows.numbers _ _ hn) _ _
        hrest

end

/-! ## Compiled descriptions -/

/-- A condition on a property that has been compiled. -/
theorem exists_of_compile {isMember : Bool} {inner : Description} {w after : World σ} {found : Option Json}
    {progress : Progress}
    (h : (d.compile isMember (.someProperty p inner depth)).outcome w = (.ok (found, progress), after)) :
    ∃ start, (d.compileProperty (d.expandConcept (w.catalog.concepts.length + 1)) [] none p depth
      inner).outcome (w, start) = (.ok found, (after, progress)) := by
  by_cases hportrait : d.settings.query.nodeLog = true →
      ∃ ms, (Description.someProperty p inner depth).portrait = .ok ms
  · obtain ⟨start, -, hstart⟩ := d.exists_start hportrait isMember w
    rw [hstart] at h
    refine ⟨start, ?_⟩
    rcases hrun : (d.compileProperty (d.expandConcept (w.catalog.concepts.length + 1)) [] none p depth
      inner).outcome (w, start) with ⟨e | clause, t⟩ <;> rw [hrun] at h <;> cases h
    rfl
  · rw [Classical.not_imp] at hportrait
    obtain ⟨e, he⟩ := d.compile_error_of_portrait hportrait.1 hportrait.2 isMember w
    rw [h] at he
    cases he

/-- A condition that compares has a query if its times can be used. -/
theorem exists_compile_compared (hdirect : p.inverse = false) (depth : Option Int) (isMember : Bool)
    {inner : Description} (hcompared : inner.isCompared = true)
    (husable : ∀ t ∈ inner.times, Description.IsUsable d.settings.query t)
    (w : World σ) : ∃ found progress after,
      (d.compile isMember (.someProperty p inner depth)).outcome w = (.ok (found, progress), after) := by
  obtain ⟨hlabel, hday⟩ := usable_iff.mpr husable
  have hportrait := (@Description.isOk_portrait (.someProperty p inner depth)).mpr
  obtain ⟨start, -, hstart⟩ := d.exists_start (fun hlog => hportrait (hlabel hlog)) isMember w
  have hanswers : Answers (d.compileProperty _ _ _ p depth inner) _ _ := answers_compared hdirect
    (d.expandConcept (w.catalog.concepts.length + 1)) [] inner hcompared
  rw [hstart]
  rcases hrun : (d.compileProperty (d.expandConcept (w.catalog.concepts.length + 1)) [] none p depth
    inner).outcome (w, start) with ⟨e | clause, t⟩
  · obtain ⟨time, htime, hno⟩ := hanswers.fails (w, start) e (by rw [hrun])
    exact absurd (hday time htime) hno
  · exact ⟨clause, t.2, t.1, rfl⟩

/-- What lies below a property counts where values are compared or are any values: there are queries for the
property and for the subproperty, and what the latter selects the former selects as well, whenever the two
are compiled. It does not count where the values are entities that have to be found: a query selects no
document without a value of the property itself. -/
theorem compile_subproperty (d : Deployment σ) {p : Property} (hdirect : p.inverse = false) (isMember : Bool)
    (inner : Description) (depth : Option Int) (w : World σ) :
    (inner.isCompared = true → (∀ t ∈ inner.times, Description.IsUsable d.settings.query t) →
      ∀ p', d.IsSubproperty w.catalog p' p depth → ∀ isMember' w', ∃ found found' progress progress' u u',
        (d.compile isMember (.someProperty p inner depth)).outcome w = (.ok (found, progress), u) ∧
        (d.compile isMember' (.someProperty p' inner (some 0))).outcome w' = (.ok (found', progress'), u') ∧
        ∀ c, u.catalog.Grows c → u'.catalog.Grows c → Option.Rel Clause.Covers found found') ∧
    (inner.isPursued = true → p.isPage = true → ∀ clause progress u,
      (d.compile isMember (.someProperty p inner depth)).outcome w = (.ok (some clause, progress), u) →
      Clause.Demands (Field.inGroup (Field.group (w.catalog.number (.property p)).1) Field.numbers)
        clause) := by
  constructor
  · intro hcompared husable p' hsub isMember' w'
    obtain ⟨found, progress, u, hrun⟩ :=
      exists_compile_compared hdirect depth isMember hcompared husable w
    obtain ⟨found', progress', u', hrun'⟩ :=
      exists_compile_compared hsub.direct' (some 0) isMember' hcompared husable w'
    refine ⟨found, found', progress, progress', u, u', hrun, hrun', fun c hgrows hgrows' => ?_⟩
    obtain ⟨start, hproperty⟩ := exists_of_compile hrun
    obtain ⟨start', hproperty'⟩ := exists_of_compile hrun'
    have hlater := (isBuilt_property (d := d) (isBuilt_expandConcept _) [] none p depth inner).grows hproperty
    exact covers_property (hsub.of_grows (hlater.trans hgrows)) _ _ [] [] inner hcompared hproperty hproperty'
      hgrows hgrows'
  · intro hpursued hpage clause progress u hrun
    obtain ⟨start, hproperty⟩ := exists_of_compile hrun
    exact demands_property hdirect hpage _ [] inner hpursued _ rfl _ _ hproperty clause rfl

private def locatedIn : Property := { key := "Located_in" }

private def partOf : Property := { key := "Part_of" }

/-- A page, and another one that is a part of it. -/
private def partArchive : Archive where
  docs := [(10, fun field => if field = "subject.namespace" then [.int 0] else []),
    (20, fun field => if field = "P:2.wpgID" then [.int 10] else [])]

private def partStore : Deployment Archive := Archive.deployment {}

/-- What is part of something is located in it. -/
private def partWorld : World Archive where
  engine := partArchive
  catalog := {
    next := 21
    numbers := [(.property "Located_in", 1), (.property "Part_of", 2)]
    hierarchy := [(.property "Located_in", [.property partOf])] }

private def pageClause : Json := Clause.term "subject.namespace" (.int 0)

private theorem part_selected : partWorld.engine.selected (wrapped (.arr [pageClause]) true) = [10] := by
  have hwrapped : wrapped (.arr [pageClause]) true =
      Clause.constantScore (Clause.compound .must [pageClause]) := rfl
  rw [hwrapped]
  simp [Archive.selected, partWorld, partArchive, pageClause, Clause.holds_constantScore, Matching.hasValue,
    Archive.base]

/-- What is asked of the values of a property that are pages of the main namespace. -/
private def pagesBy (n : Int) : Json :=
  Clause.compound .must [Clause.compound .must [partStore.hasNumber
    (Field.inGroup (Field.group n) Field.numbers) (Json.ofInts [10])]]

private theorem part_run {p : Property} {n : Int} (hdirect : p.inverse = false) (hpage : p.isPage = true)
    (hn : partWorld.catalog.numberOf? (.property p) = some n)
    (hlower : ∀ item ∈ partWorld.catalog.lower (.property p) (partStore.depthOf none),
      partWorld.catalog.Knows item) :
    ∃ progress after, (partStore.compile false (.someProperty p (.space 0) none)).outcome partWorld =
      (.ok (some (pagesBy n), progress), after) := by
  have hportrait := (Description.isOk_portrait (.someProperty p (.space 0) none)).mpr nofun
  obtain ⟨start, -, hstart⟩ := partStore.exists_start (fun _ => hportrait) false partWorld
  obtain ⟨lower, hsite⟩ : ∃ lower, (act (partStore.propertySite p none)).outcome (partWorld, start) =
      (.ok (Field.group n, lower), (partWorld, start)) :=
    ⟨_, by rw [outcome_act, partStore.outcome_propertySite hn hlower]⟩
  have htext : (Description.space 0).queryText = .ok "[[+]]" := by decide +kernel
  let l := partStore.plainLookup "[[+]]" (.arr [pageClause])
  have hbody : l.body = partStore.lookupBody (wrapped (.arr [pageClause]) true) (.bool false) := rfl
  have hresolve : (l.resolve partStore).outcome partWorld = _ := Archive.resolve_eq rfl hbody rfl
  rw [part_selected] at hresolve
  have hempty : partStore.Remembers (partWorld.asked partStore (ExactEngine.request partStore
      (wrapped (.arr [pageClause]) true) (.bool false))) fun _ _ => False := .of_empty fun _ => rfl
  have husable : partStore.cache.IsUsable .waiting l.lifetime := by rintro _ _ ⟨⟩
  obtain ⟨w, hkept, -⟩ := Lookup.exists_keep husable (Archive.exact {}).stores hempty l rfl 1 [10]
  have hlookup : (partStore.lookup "[[+]]" (Field.inGroup (Field.group n) Field.numbers)
      (.arr [pageClause])).outcome partWorld = (.ok ⟨partStore.hasNumber
        (Field.inGroup (Field.group n) Field.numbers) (Json.ofInts [10]),
        [("predefined_lookup_query", .str "[[+]]"), ("query", .obj l.body), ("count", .int 1),
          ("is_from_cache", .bool false)]⟩, w) := outcome_bind_of_ok (hresolve.trans hkept) _
  have hobject : ∃ t, (partStore.objectClause p (Field.group n) "[[+]]" [pageClause]).outcome
      (partWorld, start) = (.ok (some (pagesBy n)), t) := by
    unfold objectClause
    simp only [hdirect, hpage, if_true, Bool.false_eq_true, if_false, List.isEmpty_cons]
    exact ⟨_, outcome_bind_of_ok (outcome_lookUp_of_ok (s := (partWorld, start)) hlookup) _⟩
  obtain ⟨t, hobject⟩ := hobject
  have hproperty : (partStore.compileProperty (partStore.expandConcept 1) [] none p none (.space 0)).outcome
      (partWorld, start) = (.ok (some (pagesBy n)), t) := by
    rw [compileProperty, outcome_bind_of_ok hsite, htext]
    exact outcome_bind_of_ok hobject _
  refine ⟨t.2, t.1, hstart.trans ?_⟩
  rw [show partWorld.catalog.concepts.length + 1 = 1 from rfl, hproperty]
  rfl

/-- What has anything that it is part of is located in something. But of what is part of a page, nothing is
located in a page. -/
theorem compile_subproperty_part :
    locatedIn.inverse = false ∧ locatedIn.isPage = true ∧
      partStore.IsSubproperty partWorld.catalog partOf locatedIn none ∧
      (Description.thing false).isCompared = true ∧ (Description.space 0).isPursued = true ∧
      (∀ t ∈ (Description.thing false).times, Description.IsUsable partStore.settings.query t) ∧
      (∃ found found' progress progress' u u',
        (partStore.compile false (.someProperty locatedIn (.thing false) none)).outcome partWorld =
          (.ok (found, progress), u) ∧
        (partStore.compile false (.someProperty partOf (.thing false) (some 0))).outcome partWorld =
          (.ok (found', progress'), u') ∧
        ∀ c, u.catalog.Grows c → u'.catalog.Grows c → Option.Rel Clause.Covers found found') ∧
      ∃ clause clause' progress progress' u u' doc,
        (partStore.compile false (.someProperty locatedIn (.space 0) none)).outcome partWorld =
          (.ok (some clause, progress), u) ∧
        (partStore.compile false (.someProperty partOf (.space 0) none)).outcome partWorld =
          (.ok (some clause', progress'), u') ∧
        (20, doc) ∈ partArchive.docs ∧ Clause.holds Archive.base doc clause = false ∧
        Clause.holds Archive.base doc clause' = true := by
  have htimes : ∀ t ∈ (Description.thing false).times, Description.IsUsable partStore.settings.query t := by
    simp [Description.times]
  have hsub : partStore.IsSubproperty partWorld.catalog partOf locatedIn none :=
    ⟨rfl, rfl, rfl, List.mem_cons_self⟩
  obtain ⟨progress, u, hrun⟩ := part_run (p := locatedIn) (n := 1) rfl rfl rfl (by decide)
  obtain ⟨progress', u', hrun'⟩ := part_run (p := partOf) (n := 2) rfl rfl rfl (by decide)
  have hdemands := (compile_subproperty partStore (rfl : locatedIn.inverse = false) false (.space 0) none
    partWorld).2 rfl rfl _ _ _ hrun
  have hcovers := (compile_subproperty partStore (rfl : locatedIn.inverse = false) false (.thing false) none
    partWorld).1 rfl htimes partOf hsub false partWorld
  refine ⟨rfl, rfl, hsub, rfl, rfl, htimes, hcovers, _, _, progress, progress', u, u', _, hrun, hrun',
    List.mem_cons_of_mem _ List.mem_cons_self, ?_, ?_⟩
  · exact Bool.eq_false_iff.mpr fun hholds => hdemands _ _ hholds (by decide)
  · have hfield : Field.inGroup (Field.group 2) Field.numbers = "P:2.wpgID" := by decide
    simp [pagesBy, hfield, hasNumber, partStore, Archive.deployment, Clause.holds_constantScore, Json.ofInts,
      Matching.hasValue, Archive.base]

end Deployment

end FactIndex
