import FactIndex.Proofs.Compile.Places

/-!
# The numbers that compilations give

A compilation asks the catalog for numbers, and what has none is given one. Which numbers are given does
not depend on what clauses look like. So with and without lookups of concepts a description is given the
same numbers, as long as the concepts have theirs already.

## Main definitions

* `Deployment.withConceptLookup`: lookups of concepts are made, or not.
* `Compiling.InStep`: two computations that give the same numbers.
* `Deployment.inStep_node`, `Deployment.expandsInStep_expandConcept`: nodes and expansions of concepts.
* `Deployment.catalog_compile_eq`: the catalogs in the end are the same.
-/

namespace FactIndex

open FactIndex.Effect FactIndex.Compiling

variable {σ α β γ δ : Type}

namespace Deployment

variable (d : Deployment σ) (b : Bool)

/-- The deployment with lookups of concepts, or without. -/
def withConceptLookup : Deployment σ :=
  { d with settings := { d.settings with query := { d.settings.query with conceptLookup := b } } }

/-- Nor do nodes that stand on their own. -/
theorem standingClause_withConceptLookup (isMember : Bool) :
    (d.withConceptLookup b).standingClause isMember = d.standingClause isMember :=
  funext fun node => by cases node <;> rfl

end Deployment

namespace Compiling

/-- Two runs have come to the same numbers, which have grown out of those of a catalog, and are expanding
the same concepts. -/
structure Abreast (c : Catalog) (s s' : World σ × Progress) : Prop where
  grows : c.Grows s.1.catalog
  catalog : s.1.catalog = s'.1.catalog
  expanding : s.2.expanding = s'.2.expanding

/-- Two computations give the same numbers, whatever they answer, unless one of them fails. -/
def InStep (c : Catalog) (x : Compiling σ α) (y : Compiling σ β) : Prop :=
  ∀ s s', Abreast c s s' → ∀ a b t t', x.outcome s = (.ok a, t) → y.outcome s' = (.ok b, t') →
    Abreast c t t'

/-- A computation gives no numbers, and expands no concept. -/
abbrev GivesNone (x : Compiling σ α) : Prop :=
  Leaves (fun s : World σ × Progress => (s.1.catalog, s.2.expanding)) x

theorem givesNone_note {g : Progress → Progress} (h : ∀ p, (g p).expanding = p.expanding) :
    GivesNone (note g : Compiling σ Unit) := fun s => congrArg (Prod.mk _) (h s.2)

theorem givesNone_lookUp {x : Action σ Resolved} (h : KeepsCatalog x) : GivesNone (lookUp x) :=
  have hact : GivesNone (act x) := fun s => congrArg (fun c => (c, s.2.expanding)) (h s.1)
  hact.bind fun _ => (givesNone_note (by intro; rfl)).bind fun _ => Leaves.pure _

namespace InStep

variable {c : Catalog} {x : Compiling σ α} {y : Compiling σ β}

theorem bind {f : α → Compiling σ γ} {g : β → Compiling σ δ} (hx : InStep c x y)
    (hf : ∀ a b, InStep c (f a) (g b)) : InStep c (x >>= f) (y >>= g) := by
  intro s s' hs a b t t' ha hb
  obtain ⟨a', u, hu, ha⟩ := exists_of_bind_ok ha
  obtain ⟨b', u', hu', hb⟩ := exists_of_bind_ok hb
  exact hf a' b' u u' (hx s s' hs a' b' u u' hu hu') a b t t' ha hb

theorem of_givesNone (hx : GivesNone x) (hy : GivesNone y) : InStep c x y := by
  intro s s' hs a b t t' ha hb
  have hleft := Prod.ext_iff.mp (hx s)
  have hright := Prod.ext_iff.mp (hy s')
  rw [ha] at hleft
  rw [hb] at hright
  simp only at hleft hright
  exact ⟨by rw [hleft.1]; exact hs.grows, hleft.1.trans (hs.catalog.trans hright.1.symm),
    hleft.2.trans (hs.expanding.trans hright.2.symm)⟩

theorem pure (a : α) (b : β) : InStep c (Pure.pure a : Compiling σ α) (Pure.pure b : Compiling σ β) :=
  of_givesNone (Leaves.pure a) (Leaves.pure b)

/-- In the end no more numbers are given. -/
theorem bind_givesNone {f : α → Compiling σ γ} {g : β → Compiling σ δ} (hx : InStep c x y)
    (hf : ∀ a, GivesNone (f a)) (hg : ∀ b, GivesNone (g b)) : InStep c (x >>= f) (y >>= g) :=
  hx.bind fun a b => of_givesNone (hf a) (hg b)

/-- The catalog answers the same. -/
theorem onCatalog_bind {z : Action σ α} (hz : OnCatalog z) {f : α → Compiling σ γ} {g : α → Compiling σ δ}
    (hf : ∀ a, InStep c (f a) (g a)) : InStep c (act z >>= f) (act z >>= g) := by
  obtain ⟨y, hy⟩ := hz
  have houtcome : ∀ s : World σ × Progress, (act z).outcome s = ((y.outcome s.1.catalog).1,
      ({ s.1 with catalog := (y.outcome s.1.catalog).2 }, s.2)) := fun s => by
    rw [outcome_act, (hy s.1).1]
  intro s s' hs a b t t' ha hb
  obtain ⟨a', u, hu, ha⟩ := exists_of_bind_ok ha
  obtain ⟨b', u', hu', hb⟩ := exists_of_bind_ok hb
  rw [houtcome] at hu hu'
  rw [← hs.catalog] at hu'
  obtain ⟨hanswer, rfl⟩ := Prod.mk.inj hu
  obtain ⟨hanswer', rfl⟩ := Prod.mk.inj hu'
  rw [hanswer] at hanswer'
  cases hanswer'
  have hs' : Abreast c ({ s.1 with catalog := (y.outcome s.1.catalog).2 }, s.2)
      ({ s'.1 with catalog := (y.outcome s.1.catalog).2 }, s'.2) :=
    ⟨hs.grows.trans (hy s.1).2, rfl, hs.expanding⟩
  exact hf a' _ _ hs' a b t t' ha hb

theorem onCatalog {z : Action σ α} (hz : OnCatalog z) : InStep c (act z) (act z) := by
  have hbind := @onCatalog_bind σ α α α c z hz Pure.pure Pure.pure fun a => InStep.pure a a
  rwa [bind_pure] at hbind

/-- What follows on a look into the catalog may rely on what was there in the beginning. -/
theorem catalog_bind {f : Catalog → Compiling σ γ} {g : Catalog → Compiling σ δ}
    (hf : ∀ c', c.Grows c' → InStep c (f c') (g c')) :
    InStep c (act FactIndex.catalog >>= f) (act FactIndex.catalog >>= g) := by
  intro s s' hs a b t t' ha hb
  have hcatalog : ∀ s : World σ × Progress, (act FactIndex.catalog : Compiling σ Catalog).outcome s =
      (.ok s.1.catalog, s) := fun _ => rfl
  rw [outcome_bind_of_ok (hcatalog _)] at ha hb
  rw [← hs.catalog] at hb
  exact hf s.1.catalog hs.grows s s' hs a b t t' ha hb

/-- What follows on a look at the progress may rely on the concepts that are being expanded. -/
theorem progress_bind {f : Progress → Compiling σ γ} {g : Progress → Compiling σ δ}
    (hf : ∀ p p', p.expanding = p'.expanding → InStep c (f p) (g p')) :
    InStep c (progress >>= f) (progress >>= g) := by
  intro s s' hs a b t t' ha hb
  rw [outcome_bind_of_ok (outcome_progress _)] at ha hb
  exact hf s.2 s'.2 hs.expanding s s' hs a b t t' ha hb

theorem expandingOf {hash : String} (h : InStep c x y) :
    InStep c (Compiling.expandingOf hash x) (Compiling.expandingOf hash y) := by
  intro s s' hs a b t t' ha hb
  have hpushed : Abreast c (s.1, { s.2 with expanding := s.2.expanding ++ [hash] })
      (s'.1, { s'.2 with expanding := s'.2.expanding ++ [hash] }) :=
    ⟨hs.grows, hs.catalog, by rw [hs.expanding]⟩
  rw [outcome_expandingOf] at ha hb
  obtain ⟨hanswer, rfl⟩ := Prod.mk.inj ha
  obtain ⟨hanswer', rfl⟩ := Prod.mk.inj hb
  have hafter := h _ _ hpushed a b _ _ (Prod.ext hanswer rfl) (Prod.ext hanswer' rfl)
  exact ⟨hafter.grows, hafter.catalog, congrArg List.dropLast hafter.expanding⟩

/-- Where everything has a number already, none is given. -/
theorem of_known (hx : ∀ s a t, c.Grows s.1.catalog → x.outcome s = (.ok a, t) →
      t.1.catalog = s.1.catalog ∧ t.2.expanding = s.2.expanding)
    (hy : ∀ s b t, c.Grows s.1.catalog → y.outcome s = (.ok b, t) →
      t.1.catalog = s.1.catalog ∧ t.2.expanding = s.2.expanding) : InStep c x y := by
  intro s s' hs a b t t' ha hb
  obtain ⟨hcatalog, hexpanding⟩ := hx s a t hs.grows ha
  obtain ⟨hcatalog', hexpanding'⟩ := hy s' b t' (by rw [← hs.catalog]; exact hs.grows) hb
  exact ⟨by rw [hcatalog]; exact hs.grows, by rw [hcatalog, hcatalog', hs.catalog],
    by rw [hexpanding, hexpanding', hs.expanding]⟩

end InStep

end Compiling

namespace Deployment

open Compiling

variable {d : Deployment σ} {b b' : Bool} {c : Catalog} {expand other : Expansion σ} {p : Property}

theorem givesNone_visit (d : Deployment σ) (node : Description) : GivesNone (d.visit node) := by
  unfold visit
  split
  · exact (Leaves.ofExcept _).bind fun _ => givesNone_note fun _ => rfl
  · exact Leaves.pure _

theorem givesNone_negatedClause (d : Deployment σ) (path : List Nat) (field : String) (clause : Json) :
    GivesNone (d.negatedClause path field clause) := by
  unfold negatedClause
  split
  · exact (givesNone_note (by intro; rfl)).bind fun _ => Leaves.pure _
  · exact Leaves.pure _

theorem givesNone_disjoined (clauses : List (List Nat × Json)) :
    GivesNone (disjoined clauses : Compiling σ (Option Json)) := fun s => by
  rw [outcome_disjoined]

theorem givesNone_objectClause (d : Deployment σ) (hdirect : p.inverse = false) (group text : String)
    (clauses : List Json) : GivesNone (d.objectClause p group text clauses) := by
  unfold objectClause
  split
  · exact Leaves.pure _
  · rw [hdirect]
    exact (givesNone_lookUp (d.keepsCatalog_lookup _ _ _)).bind fun _ => (Leaves.pure _).bind fun _ =>
      Leaves.pure _

theorem givesNone_linked (d : Deployment σ) (chain : Option String) (p : Property) (whole : Description)
    (clause : Option Json) : GivesNone (d.linked chain p whole clause) := by
  unfold linked
  split
  · exact Leaves.pure _
  · split
    · exact Leaves.pure _
    · exact (Leaves.ofExcept _).bind fun _ =>
        (givesNone_lookUp (d.keepsCatalog_lookupChain _ _ _ _)).bind fun _ => Leaves.pure _

/-- A node that stands on its own asks the catalog only. -/
theorem inStep_standingClause (d : Deployment σ) (isMember : Bool) {node : Description}
    (hnode : node.IsStanding) :
    InStep c (d.standingClause isMember node) (d.standingClause isMember node) := by
  cases node with
  | category => exact InStep.onCatalog (d.onCatalog_categoryClause _ _ _ _)
  | space => exact InStep.pure _ _
  | value item comparator property =>
      unfold standingClause entityClause
      refine InStep.onCatalog_bind ?_ fun site => InStep.onCatalog_bind (onCatalog_siteValue _ _ _)
        fun found => InStep.of_givesNone ?_ ?_
      · cases property with
        | none => exact OnCatalog.pure _
        | some p => exact onCatalog_namedSite _ _
      all_goals
        dsimp only
        split
        · exact (Leaves.ofExcept _).bind fun _ => (givesNone_note (by intro; rfl)).bind fun _ =>
            Leaves.pure _
        · exact (Leaves.ofExcept _).bind fun _ => Leaves.pure _
  | conjunction | disjunction | concept | someProperty | thing => exact hnode.elim

/-- Two ways of expanding concepts give the same numbers. -/
def ExpandsInStep (c : Catalog) (expand other : Expansion σ) : Prop :=
  ∀ isMember path concept, InStep c (expand isMember path concept) (other isMember path concept)

/-- What is compiled below a property follows on what the catalog says of the property. -/
theorem inStep_site {f g : String × List Int → Compiling σ α} (d : Deployment σ) (p : Property)
    (depth : Option Int) (h : ∀ site, InStep c (f site) (g site)) :
    InStep c (act (d.propertySite p depth) >>= f) (act (d.propertySite p depth) >>= g) :=
  InStep.onCatalog_bind (d.onCatalog_propertySite p depth) h

/-- A node that stands on its own is compiled the same whether concepts are looked up or not. -/
theorem inStep_standingNode (isMember : Bool) (path : List Nat) {node : Description}
    (hnode : node.IsStanding) :
    InStep c ((d.withConceptLookup b).compileNode expand isMember path node)
      ((d.withConceptLookup b').compileNode other isMember path node) := by
  rw [compileNode_standing _ _ _ hnode, compileNode_standing _ _ _ hnode,
    standingClause_withConceptLookup, standingClause_withConceptLookup, ← bind_pure_comp]
  exact (InStep.of_givesNone (givesNone_visit _ _) (givesNone_visit _ _)).bind fun _ _ =>
    (d.inStep_standingClause isMember hnode).bind fun _ _ => InStep.pure _ _

/-- The objects of a direct property are looked up at the most. -/
theorem givesNone_object {d : Deployment σ} (hp : p.inverse = false) (group text : String)
    (clauses : List Json) (chain : Option String) (whole : Description) :
    GivesNone (d.objectClause p group text clauses >>= d.linked chain p whole) :=
  (d.givesNone_objectClause hp _ _ _).bind fun _ => givesNone_linked _ _ _ _ _

/-- A condition on a direct property asks the catalog only. -/
theorem inStep_valueClause (d : Deployment σ) (hp : p.inverse = false) (path : List Nat)
    (site : String × List Int) (item : Item) (comparator : Comparator) (property : Option Property) :
    InStep c (d.valueClause path p site item comparator property)
      (d.valueClause path p site item comparator property) := by
  have hcondition : ∀ array value, GivesNone (Effect.ofExcept (Condition.ofProperty d.settings.query
      d.settings.writer.normalKeywords p.valueType site.1 array item comparator.normal value) >>= fun m =>
        if (!p.inverse) = true then pure m else do
          let text ← .ofExcept (Description.value item comparator property).queryText
          return { m with
            clause := ← d.inverseClause p site.1 text comparator.normal m.value m.clause }) :=
    fun array value => by
      rw [hp]
      exact (Leaves.ofExcept _).bind fun _ => Leaves.pure _
  have hclause : ∀ m : Condition.Matched, GivesNone (
      let clause := if p.inverse then m.clause else Clause.overHierarchy m.clause site.1 site.2
      if m.negated then d.negatedClause path (Field.inGroup site.1 m.array) clause
      else return Clause.compound m.occur [clause]) := fun m => by
    rw [hp]
    dsimp only
    split
    · exact givesNone_negatedClause _ _ _ _
    · exact Leaves.pure _
  refine InStep.bind_givesNone ?_ hclause hclause
  exact InStep.onCatalog_bind (onCatalog_arrayValue _ _ _) fun found =>
    InStep.of_givesNone (hcondition found.1 found.2) (hcondition found.1 found.2)

/-- A direct property before another one: what lies behind it is compiled in between. -/
theorem inStep_chained {x y : String → Compiling σ (Option Json)}
    (h : ∀ field, InStep c (x field) (y field)) (chain : Option String) (hp : p.inverse = false)
    (depth : Option Int) (rest : Description) :
    let run (b : Bool) (x : String → Compiling σ (Option Json)) : Compiling σ (Option Json) := do
      let site ← .act ((d.withConceptLookup b).propertySite p depth)
      let clause ← x (Field.inGroup site.1 Field.numbers)
      let clause ← (d.withConceptLookup b).chainClause p (Field.inGroup site.1 Field.numbers) rest clause
      (d.withConceptLookup b).linked chain p (.someProperty p rest depth) clause
    InStep c (run b x) (run b' y) := by
  simp only [chainClause_direct hp, pure_bind]
  exact inStep_site d p depth fun _ => (h _).bind_givesNone (fun _ => givesNone_linked _ _ _ _ _)
    fun _ => givesNone_linked _ _ _ _ _

mutual

/-- By induction on the description: which numbers are asked for does not depend on what clauses look
like. -/
theorem inStep_node (h : ExpandsInStep c expand other) (isMember : Bool) (path : List Nat) :
    (node : Description) → node.isDirect = true →
      InStep c ((d.withConceptLookup b).compileNode expand isMember path node)
        ((d.withConceptLookup b').compileNode other isMember path node)
  | .conjunction ds, hdirect => by
      rw [compileNode, compileNode]
      refine (InStep.of_givesNone (givesNone_visit _ _) (givesNone_visit _ _)).bind fun _ _ =>
        InStep.bind_givesNone ?_ (fun _ => Leaves.pure _) fun _ => Leaves.pure _
      exact inStep_members h path 0 ds (by simpa [Description.isDirect] using hdirect)
  | .disjunction ds, hdirect => by
      rw [compileNode, compileNode]
      refine (InStep.of_givesNone (givesNone_visit _ _) (givesNone_visit _ _)).bind fun _ _ =>
        InStep.bind_givesNone ?_ (fun _ => givesNone_disjoined _) fun _ => givesNone_disjoined _
      exact inStep_members h path 0 ds (by simpa [Description.isDirect] using hdirect)
  | .concept concept, _ => by
      rw [compileNode, compileNode]
      exact (InStep.of_givesNone (givesNone_visit _ _) (givesNone_visit _ _)).bind fun _ _ =>
        h isMember path concept
  | .someProperty p inner depth, hdirect => by
      rw [compileNode, compileNode]
      refine (InStep.of_givesNone (givesNone_visit _ _) (givesNone_visit _ _)).bind fun _ _ => ?_
      rw [Description.isDirect, Bool.and_eq_true, Bool.not_eq_true'] at hdirect
      exact inStep_property h path none p depth hdirect.1 inner hdirect.2
  | .thing _, _ => by
      rw [compileNode, compileNode]
      exact (InStep.of_givesNone (givesNone_visit _ _) (givesNone_visit _ _)).bind fun _ _ =>
        InStep.pure _ _
  | .category _ _ _, _ => inStep_standingNode isMember path (by trivial)
  | .space _, _ => inStep_standingNode isMember path (by trivial)
  | .value item comparator property, hdirect => by
      have hstanding : (Description.value item comparator property).IsStanding := fun p hp => by
        rw [Description.isDirect, Option.mem_def.mp hp] at hdirect
        simpa using hdirect
      exact inStep_standingNode isMember path hstanding

theorem inStep_members (h : ExpandsInStep c expand other) (path : List Nat) :
    (i : Nat) → (ds : List Description) → Description.areDirect ds = true →
      InStep c ((d.withConceptLookup b).compileMembers expand path i ds)
        ((d.withConceptLookup b').compileMembers other path i ds)
  | _, [], _ => by
      rw [compileMembers, compileMembers]
      exact InStep.pure _ _
  | i, m :: ms, hdirect => by
      rw [compileMembers, compileMembers]
      rw [Description.areDirect, Bool.and_eq_true] at hdirect
      exact (inStep_node h true (path ++ [i]) m hdirect.1).bind fun _ _ =>
        (inStep_members h path (i + 1) ms hdirect.2).bind fun _ _ => InStep.pure _ _

theorem inStep_property (h : ExpandsInStep c expand other) (path : List Nat) (chain : Option String)
    (p : Property) (depth : Option Int) (hp : p.inverse = false) :
    (inner : Description) → inner.isDirect = true →
      InStep c ((d.withConceptLookup b).compileProperty expand path chain p depth inner)
        ((d.withConceptLookup b').compileProperty other path chain p depth inner)
  | .someProperty q (.disjunction ds) qdepth, hdirect => by
      rw [compileProperty, compileProperty]
      rw [Description.isDirect, Bool.and_eq_true, Bool.not_eq_true', Description.isDirect] at hdirect
      simp only [chainClause_direct hp, pure_bind]
      exact inStep_site d p depth fun _ => (inStep_alternatives h _ _ q qdepth hdirect.1 0 ds
        hdirect.2).bind_givesNone (fun _ => givesNone_linked _ _ _ _ _)
          fun _ => givesNone_linked _ _ _ _ _
  | .someProperty q (.conjunction ds) qdepth, hdirect => by
      rw [Description.isDirect, Bool.and_eq_true, Bool.not_eq_true'] at hdirect
      exact inStep_chained (fun field => inStep_property h _ (some field) q qdepth hdirect.1
        (.conjunction ds) hdirect.2) chain hp depth _
  | .someProperty q (.category cs cdepth negated) qdepth, hdirect => by
      rw [Description.isDirect, Bool.and_eq_true, Bool.not_eq_true'] at hdirect
      exact inStep_chained (fun field => inStep_property h _ (some field) q qdepth hdirect.1
        (.category cs cdepth negated) hdirect.2) chain hp depth _
  | .someProperty q (.concept concept) qdepth, hdirect => by
      rw [Description.isDirect, Bool.and_eq_true, Bool.not_eq_true'] at hdirect
      exact inStep_chained (fun field => inStep_property h _ (some field) q qdepth hdirect.1
        (.concept concept) hdirect.2) chain hp depth _
  | .someProperty q (.space n) qdepth, hdirect => by
      rw [Description.isDirect, Bool.and_eq_true, Bool.not_eq_true'] at hdirect
      exact inStep_chained (fun field => inStep_property h _ (some field) q qdepth hdirect.1
        (.space n) hdirect.2) chain hp depth _
  | .someProperty q (.someProperty q' inner' depth') qdepth, hdirect => by
      rw [Description.isDirect, Bool.and_eq_true, Bool.not_eq_true'] at hdirect
      exact inStep_chained (fun field => inStep_property h _ (some field) q qdepth hdirect.1
        (.someProperty q' inner' depth') hdirect.2) chain hp depth _
  | .someProperty q (.value item comparator property) qdepth, hdirect => by
      rw [Description.isDirect, Bool.and_eq_true, Bool.not_eq_true'] at hdirect
      exact inStep_chained (fun field => inStep_property h _ (some field) q qdepth hdirect.1
        (.value item comparator property) hdirect.2) chain hp depth _
  | .someProperty q (.thing negated) qdepth, hdirect => by
      rw [Description.isDirect, Bool.and_eq_true, Bool.not_eq_true'] at hdirect
      exact inStep_chained (fun field => inStep_property h _ (some field) q qdepth hdirect.1
        (.thing negated) hdirect.2) chain hp depth _
  | .value item comparator property, _ => by
      rw [compileProperty, compileProperty]
      refine inStep_site d p depth fun site => InStep.bind_givesNone ?_
        (fun _ => givesNone_linked _ _ _ _ _) fun _ => givesNone_linked _ _ _ _ _
      exact d.inStep_valueClause hp path site item comparator property
  | .thing negated, _ => by
      rw [compileProperty, compileProperty]
      exact inStep_site d p depth fun _ => InStep.of_givesNone (givesNone_linked _ _ _ _ _)
        (givesNone_linked _ _ _ _ _)
  | .disjunction ds, hdirect => by
      rw [compileProperty, compileProperty]
      rw [Description.isDirect] at hdirect
      exact inStep_site d p depth fun _ => (inStep_alternatives h _ none p depth hp 0 ds
        hdirect).bind_givesNone (fun _ => givesNone_linked _ _ _ _ _) fun _ => givesNone_linked _ _ _ _ _
  | .conjunction ds, hdirect => by
      rw [compileProperty, compileProperty]
      rw [Description.isDirect] at hdirect
      exact inStep_site d p depth fun _ => (InStep.of_givesNone (Leaves.ofExcept _)
        (Leaves.ofExcept _)).bind fun _ _ => (inStep_members h _ 0 ds hdirect).bind_givesNone
          (fun _ => givesNone_object hp _ _ _ _ _) fun _ => givesNone_object hp _ _ _ _ _
  | .category cs cdepth negated, _ => by
      rw [compileProperty, compileProperty]
      refine inStep_site d p depth fun _ => (InStep.of_givesNone (Leaves.ofExcept _)
        (Leaves.ofExcept _)).bind fun _ _ => (InStep.of_givesNone (givesNone_visit _ _)
          (givesNone_visit _ _)).bind fun _ _ => InStep.bind_givesNone ?_
            (fun _ => givesNone_object hp _ _ _ _ _) fun _ => givesNone_object hp _ _ _ _ _
      exact InStep.onCatalog (d.onCatalog_categoryClause true cs cdepth negated)
  | .concept concept, _ => by
      rw [compileProperty, compileProperty]
      exact inStep_site d p depth fun _ => (InStep.of_givesNone (Leaves.ofExcept _)
        (Leaves.ofExcept _)).bind fun _ _ => (InStep.of_givesNone (givesNone_visit _ _)
          (givesNone_visit _ _)).bind fun _ _ => (h true _ concept).bind_givesNone
            (fun _ => givesNone_object hp _ _ _ _ _) fun _ => givesNone_object hp _ _ _ _ _
  | .space n, _ => by
      rw [compileProperty, compileProperty]
      exact inStep_site d p depth fun _ => (InStep.of_givesNone (Leaves.ofExcept _)
        (Leaves.ofExcept _)).bind fun _ _ => (InStep.of_givesNone (givesNone_visit _ _)
          (givesNone_visit _ _)).bind fun _ _ => InStep.of_givesNone
            (givesNone_object hp _ _ _ _ _) (givesNone_object hp _ _ _ _ _)

theorem inStep_alternatives (h : ExpandsInStep c expand other) (path : List Nat) (chain : Option String)
    (p : Property) (depth : Option Int) (hp : p.inverse = false) :
    (i : Nat) → (ds : List Description) → Description.areDirect ds = true →
      InStep c ((d.withConceptLookup b).compileAlternatives expand path chain p depth i ds)
        ((d.withConceptLookup b').compileAlternatives other path chain p depth i ds)
  | _, [], _ => by
      rw [compileAlternatives, compileAlternatives]
      exact InStep.pure _ _
  | i, m :: ms, hdirect => by
      rw [compileAlternatives, compileAlternatives]
      rw [Description.areDirect, Bool.and_eq_true] at hdirect
      exact (inStep_property h (path ++ [i]) chain p depth hp m hdirect.1).bind fun _ _ =>
        (inStep_alternatives h path chain p depth hp (i + 1) ms hdirect.2).bind fun _ _ => InStep.pure _ _

end

/-- A concept with a stored query has its number already when its members are looked up. -/
theorem known_conceptClause (d : Deployment σ) {concept : Entity}
    (hknown : ∃ n, c.numbers.get? (.entity concept.hash) = some n) (inner : Description)
    (found : Option Json) (s : World σ × Progress) (a : Option Json) (t : World σ × Progress)
    (hs : c.Grows s.1.catalog) (ha : (d.conceptClause concept inner found).outcome s = (.ok a, t)) :
    t.1.catalog = s.1.catalog ∧ t.2.expanding = s.2.expanding := by
  cases found with
  | none =>
      cases ha
      exact ⟨rfl, rfl⟩
  | some clause =>
      unfold conceptClause at ha
      dsimp only at ha
      split at ha
      · cases ha
        exact ⟨rfl, rfl⟩
      · obtain ⟨n, hn⟩ := hknown
        have hnumber : (act (numberOf (.entity concept))).outcome s = (.ok n, s) := by
          rw [outcome_act]
          simp only [numberOf, outcome_make, Catalog.number_of_known _ (.entity concept)
            (hs.numbers _ n hn)]
        rw [outcome_bind_of_ok hnumber] at ha
        have hgives : GivesNone (lookUp (d.lookupConcept concept (.int n) inner clause) >>=
            fun clause => (pure (some clause) : Compiling σ (Option Json))) :=
          (givesNone_lookUp (d.keepsCatalog_lookupConcept _ _ _ _)).bind fun _ => Leaves.pure _
        have hsame := hgives s
        rw [ha] at hsame
        exact Prod.ext_iff.mp hsame

/-- A defect is reported by the text of a description, and nothing is selected. -/
theorem givesNone_report (text : Except Failure String) (defect : String → Defect) :
    GivesNone (Effect.ofExcept text >>= fun text => Compiling.report (defect text) >>= fun _ =>
      (pure (some Clause.nothing) : Compiling σ (Option Json))) :=
  (Leaves.ofExcept _).bind fun _ => (givesNone_note (by intro; rfl)).bind fun _ => Leaves.pure _

/-- Expanding a concept gives the same numbers if compiling its stored description does. -/
theorem inStep_concept {compile other : Bool → List Nat → Description → Compiling σ (Option Json)}
    (hnumbers : c.NumbersConcepts)
    (hstored : ∀ hash inner, Concepts.definition? c.concepts hash = some inner → inner.isDirect = true)
    (h : ∀ isMember path inner, inner.isDirect = true →
      InStep c (compile isMember path inner) (other isMember path inner)) :
    ExpandsInStep c ((d.withConceptLookup b).compileConcept compile)
      ((d.withConceptLookup b').compileConcept other) := by
  intro isMember path concept
  unfold compileConcept
  refine InStep.catalog_bind fun c' hc' => ?_
  have hquery : c'.query? concept = c.concepts.get? concept.hash := by
    rw [Catalog.query?, hc'.concepts]
  rw [hquery]
  cases hget : c.concepts.get? concept.hash with
  | none => exact InStep.pure _ _
  | some stored =>
      by_cases hempty : stored = ""
      · subst hempty
        exact InStep.pure _ _
      · simp only
        cases hparse : Description.parse stored with
        | error e =>
            have hgives := givesNone_report (σ := σ) (Description.concept concept).queryText .unreadable
            exact InStep.of_givesNone hgives hgives
        | ok inner =>
            have hdefinition : Concepts.definition? c.concepts concept.hash = some inner := by
              simp [Concepts.definition?, hget, hparse, Except.toOption]
            refine InStep.progress_bind fun p p' hp => ?_
            rw [hp]
            split
            · have hgives := givesNone_report (σ := σ) inner.queryText (.circular concept)
              exact InStep.of_givesNone hgives hgives
            · have hknown := hnumbers.known concept.hash (Table.mem_keys_of_get? hget)
              exact (InStep.expandingOf (h isMember _ inner (hstored _ inner hdefinition))).bind
                fun found found' => InStep.of_known (known_conceptClause _ hknown inner found)
                  (known_conceptClause _ hknown inner found')

/-- By induction on how many expansions are allowed. -/
theorem expandsInStep_expandConcept (hnumbers : c.NumbersConcepts)
    (hstored : ∀ hash inner, Concepts.definition? c.concepts hash = some inner → inner.isDirect = true)
    (n : Nat) : ExpandsInStep c ((d.withConceptLookup b).expandConcept n)
      ((d.withConceptLookup b').expandConcept n) := by
  induction n with
  | zero => exact fun _ _ _ => InStep.pure _ _
  | succ n ih =>
      exact inStep_concept hnumbers hstored fun isMember path inner => inStep_node ih isMember path inner

/-- A direct description is given the same numbers whether concepts are looked up or not. -/
theorem catalog_compile_eq (d : Deployment σ) {w after after' : World σ}
    (hnumbers : w.catalog.NumbersConcepts)
    (hstored : ∀ hash inner, Concepts.definition? w.catalog.concepts hash = some inner →
      inner.isDirect = true)
    {description : Description} (hdirect : description.isDirect = true) (isMember : Bool)
    {query query' : Option Json × Progress}
    (h : ((d.withConceptLookup b).compile isMember description).outcome w = (.ok query, after))
    (h' : ((d.withConceptLookup b').compile isMember description).outcome w = (.ok query', after')) :
    w.catalog.Grows after.catalog ∧ after.catalog = after'.catalog := by
  rw [outcome_compile] at h h'
  have hstart : Abreast w.catalog (w, ({} : Progress)) (w, {}) := ⟨.refl _, rfl, rfl⟩
  have hexpand : ExpandsInStep w.catalog
      ((d.withConceptLookup b).expandConcept (w.catalog.concepts.length + 1))
      ((d.withConceptLookup b').expandConcept (w.catalog.concepts.length + 1)) :=
    expandsInStep_expandConcept hnumbers hstored _
  have hnode := @inStep_node σ d b b' w.catalog _ _ hexpand isMember [] description hdirect _ _ hstart
  rcases hr : ((d.withConceptLookup b).compileNode ((d.withConceptLookup b).expandConcept
    (w.catalog.concepts.length + 1)) isMember [] description).outcome (w, {}) with ⟨e | found, t⟩ <;>
    rw [hr] at h <;> cases h
  rcases hr' : ((d.withConceptLookup b').compileNode ((d.withConceptLookup b').expandConcept
    (w.catalog.concepts.length + 1)) isMember [] description).outcome (w, {}) with ⟨e' | found', t'⟩ <;>
    rw [hr'] at h' <;> cases h'
  have hafter := hnode found found' t t' hr hr'
  exact ⟨hafter.grows, hafter.catalog⟩

end Deployment

end FactIndex
