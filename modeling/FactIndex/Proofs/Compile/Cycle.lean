import FactIndex.Proofs.Compile.ConceptGraph
import FactIndex.Proofs.Compile.Progress
import FactIndex.Proofs.Store.Catalog

/-!
# Concepts that refer to themselves are found

The expansion of concepts ends, and it reports a concept that refers to itself exactly if the references
that can be reached from the description contain a cycle. Two runs are compared for this that differ only
in what they would do if more concepts lay within each other than there are: both do the same, so that
this never happens.

## Main definitions

* `Deployment.expandWith`: the expansion of concepts, with anything done at the limit.
* `Compiling.Alike`: two compilations that do the same and report a cycle under one condition.
* `Deployment.compile_circular`: cycles are found, all of them and nothing else.
-/

namespace FactIndex

open FactIndex.Effect

variable {σ α β : Type}

/-- Whether a defect is that of a concept that refers to itself. -/
def Defect.isCircular : Defect → Bool
  | .circular _ _ => true
  | .unreadable _ | .lonelyArea _ => false

/-- Whether a concept that refers to itself has been reported. -/
def Progress.isCircular (p : Progress) : Bool := p.defects.any Defect.isCircular

namespace Compiling

/-! ## Compilations that have nothing to do with concepts -/

/-- The stored queries, the concepts that are being expanded, and whether a cycle was reported. -/
def trace (s : World σ × Progress) : Table String String × List String × Bool :=
  (s.1.catalog.concepts, s.2.expanding, s.2.isCircular)

theorem leaves_act {x : Action σ α} (h : KeepsConcepts x) : Leaves trace (act x) := by
  intro s
  unfold act trace
  rw [outcome_onPart]
  exact congrArg (·, s.2.expanding, s.2.isCircular) (h s.1)

theorem leaves_onCatalog {x : Action σ α} (h : OnCatalog x) : Leaves trace (act x) :=
  leaves_act h.keepsConcepts

theorem leaves_note {g : Progress → Progress} (hexpanding : ∀ p, (g p).expanding = p.expanding)
    (hcircular : ∀ p, (g p).isCircular = p.isCircular) :
    Leaves trace (note g : Compiling σ Unit) := by
  intro s
  show (s.1.catalog.concepts, (g s.2).expanding, (g s.2).isCircular) = _
  rw [hexpanding, hcircular]
  rfl

theorem leaves_progress : Leaves trace (progress : Compiling σ Progress) := fun _ => rfl

theorem leaves_report {e : Defect} (h : e.isCircular = false) :
    Leaves trace (report e : Compiling σ Unit) := by
  refine leaves_note (fun _ => rfl) fun p => ?_
  simp [Progress.isCircular, h]

theorem leaves_lookUp {x : Action σ Resolved} (h : KeepsCatalog x) : Leaves trace (lookUp x) :=
  (leaves_act h.keepsConcepts).bind fun _ => (leaves_note (by intro; rfl) (by intro; rfl)).bind fun _ => Leaves.pure _

end Compiling

namespace Deployment

open Compiling

variable (d : Deployment σ)

theorem leaves_visit (node : Description) : Leaves trace (d.visit node) := by
  unfold visit
  split
  · exact (Leaves.ofExcept _).bind fun _ => leaves_note (by intro; rfl) (by intro; rfl)
  · exact Leaves.pure _

theorem leaves_disjoined (clauses : List (List Nat × Json)) :
    Leaves trace (disjoined clauses : Compiling σ (Option Json)) := by
  unfold disjoined
  split
  · exact Leaves.pure _
  · exact leaves_progress.bind fun _ => Leaves.pure _

theorem leaves_negatedClause (path : List Nat) (field : String) (clause : Json) :
    Leaves trace (d.negatedClause path field clause) := by
  unfold negatedClause
  split
  · exact (leaves_note (by intro; rfl) (by intro; rfl)).bind fun _ => Leaves.pure _
  · exact Leaves.pure _

theorem leaves_inverseClause (p : Property) (group text : String) (c : Comparator)
    (value clause : Json) : Leaves trace (d.inverseClause p group text c value clause) := by
  unfold inverseClause
  split
  · exact leaves_lookUp (d.keepsCatalog_lookupInverse _ _ _)
  · exact (leaves_lookUp (d.keepsCatalog_lookup _ _ _)).bind fun _ =>
      (Leaves.ofExcept _).bind fun _ => leaves_lookUp (d.keepsCatalog_lookupInverse _ _ _)

theorem leaves_propertyCondition (p : Property) (group : String) (item : Item)
    (comparator : Comparator) (property : Option Property) :
    Leaves trace (d.propertyCondition p group item comparator property) := by
  refine (leaves_onCatalog (onCatalog_arrayValue _ _ _)).bind fun found =>
    (Leaves.ofExcept _).bind fun m => ?_
  split
  · exact Leaves.pure _
  · exact (Leaves.ofExcept _).bind fun _ => (d.leaves_inverseClause _ _ _ _ _ _).bind fun _ =>
      Leaves.pure _

theorem leaves_valueClause (path : List Nat) (p : Property) (site : String × List Int) (item : Item)
    (comparator : Comparator) (property : Option Property) :
    Leaves trace (d.valueClause path p site item comparator property) := by
  refine (d.leaves_propertyCondition _ _ _ _ _).bind fun m => ?_
  dsimp only
  split
  · exact d.leaves_negatedClause _ _ _
  · exact Leaves.pure _

theorem leaves_entityClause (isMember : Bool) (item : Item) (comparator : Comparator)
    (property : Option Property) : Leaves trace (d.entityClause isMember item comparator property) := by
  refine Leaves.bind (leaves_onCatalog ?_) fun site =>
    (leaves_onCatalog (onCatalog_siteValue _ _ _)).bind fun found => ?_
  · split
    · exact OnCatalog.pure _
    · exact onCatalog_namedSite _ _
  · dsimp only
    split
    · exact (Leaves.ofExcept _).bind fun _ => (leaves_report (by rfl)).bind fun _ => Leaves.pure _
    · exact (Leaves.ofExcept _).bind fun _ => Leaves.pure _

theorem leaves_objectClause (p : Property) (group text : String) (clauses : List Json) :
    Leaves trace (d.objectClause p group text clauses) := by
  unfold objectClause
  split
  · exact Leaves.pure _
  · refine (leaves_lookUp (d.keepsCatalog_lookup _ _ _)).bind fun found => ?_
    dsimp only
    split
    · exact (Leaves.ofExcept _).bind fun _ =>
        (leaves_lookUp (d.keepsCatalog_lookupInverse _ _ _)).bind fun _ => Leaves.pure _
    · exact Leaves.pure _

theorem leaves_chainClause (p : Property) (field : String) (rest : Description)
    (clause : Option Json) : Leaves trace (d.chainClause p field rest clause) := by
  unfold chainClause
  split
  · exact Leaves.pure _
  · split
    · exact Leaves.pure _
    · exact (Leaves.ofExcept _).bind fun _ => (Leaves.ofExcept _).bind fun _ =>
        (leaves_lookUp (d.keepsCatalog_lookupInverse _ _ _)).bind fun _ => Leaves.pure _

theorem leaves_linked (chain : Option String) (p : Property) (whole : Description)
    (clause : Option Json) : Leaves trace (d.linked chain p whole clause) := by
  unfold linked
  split
  · exact Leaves.pure _
  · split
    · exact Leaves.pure _
    · exact (Leaves.ofExcept _).bind fun _ =>
        (leaves_lookUp (d.keepsCatalog_lookupChain _ _ _ _)).bind fun _ => Leaves.pure _

theorem leaves_conceptClause (c : Entity) (inner : Description) (clause : Option Json) :
    Leaves trace (d.conceptClause c inner clause) := by
  unfold conceptClause
  split
  · exact Leaves.pure _
  · split
    · exact Leaves.pure _
    · exact (leaves_onCatalog (OnCatalog.numberOf _)).bind fun _ =>
        (leaves_lookUp (d.keepsCatalog_lookupConcept _ _ _ _)).bind fun _ => Leaves.pure _

end Deployment

/-! ## Two compilations that do the same -/

namespace Compiling

variable {t : Table String String} {stack : List String} {flag flag' : Prop}

/-- Two compilations do the same while some concepts are being expanded. They leave the stored queries
and the concepts that are being expanded alone, and if they come to an end, then a cycle has been
reported that was not before exactly under a condition. -/
def Alike (t : Table String String) (stack : List String) (flag : Prop) (x y : Compiling σ α) :
    Prop :=
  ∀ w p, w.catalog.concepts = t → p.expanding = stack →
    y.outcome (w, p) = x.outcome (w, p) ∧
    x.Meets (w, p) fun r s => s.1.catalog.concepts = t ∧ s.2.expanding = stack ∧
      ∀ a, r = .ok a → (s.2.isCircular = true ↔ p.isCircular = true ∨ flag)

namespace Alike

theorem of_leaves {x : Compiling σ α} (h : Leaves trace x) : Alike t stack False x x := by
  intro w p hw hp
  have hs := h (w, p)
  simp only [trace, Prod.mk.injEq] at hs
  refine ⟨rfl, hs.1.trans hw, hs.2.1.trans hp, fun a _ => ?_⟩
  rw [hs.2.2, or_false]

theorem pure (a : α) : Alike t stack False (Pure.pure a : Compiling σ α) (Pure.pure a) :=
  of_leaves (Leaves.pure a)

/-- Conditions that come to the same. -/
theorem iff {x y : Compiling σ α} (h : Alike t stack flag x y) (hflag : flag ↔ flag') :
    Alike t stack flag' x y := by
  rwa [← propext hflag]

theorem bind {x y : Compiling σ α} {f g : α → Compiling σ β} (hx : Alike t stack flag x y)
    (hf : ∀ a, Alike t stack flag' (f a) (g a)) :
    Alike t stack (flag ∨ flag') (x >>= f) (y >>= g) := by
  intro w p hw hp
  rcases hx w p hw hp with ⟨hsame, hmeets⟩
  unfold Meets
  rw [outcome_bind, outcome_bind, hsame]
  rcases hr : x.outcome (w, p) with ⟨e | a, w', p'⟩
  · rcases hmeets.of_outcome hr with ⟨hw', hp', -⟩
    exact ⟨rfl, hw', hp', fun _ h => nomatch h⟩
  · rcases hmeets.of_outcome hr with ⟨hw', hp', hfound⟩
    rcases hf a w' p' hw' hp' with ⟨hsame', hw'', hp'', hfound'⟩
    refine ⟨hsame', hw'', hp'', fun b hb => ?_⟩
    rw [hfound' b hb, hfound a rfl, or_assoc]

/-- A part that has nothing to do with concepts comes first. -/
theorem leaf_bind {x : Compiling σ α} {f g : α → Compiling σ β} (hx : Leaves trace x)
    (hf : ∀ a, Alike t stack flag (f a) (g a)) : Alike t stack flag (x >>= f) (x >>= g) :=
  ((of_leaves hx).bind hf).iff (Iff.of_eq (false_or _))

/-- A part that has nothing to do with concepts comes last. -/
theorem bind_leaf {x y : Compiling σ α} {f : α → Compiling σ β} (hx : Alike t stack flag x y)
    (hf : ∀ a, Leaves trace (f a)) : Alike t stack flag (x >>= f) (y >>= f) :=
  (hx.bind fun a => of_leaves (hf a)).iff (Iff.of_eq (or_false _))

/-- What follows on a look into the catalog may rely on the stored queries. -/
theorem catalog_bind {f g : Catalog → Compiling σ β}
    (h : ∀ c : Catalog, c.concepts = t → Alike t stack flag (f c) (g c)) :
    Alike t stack flag (act catalog >>= f) (act catalog >>= g) := by
  intro w p hw hp
  have hcatalog : (act (catalog : Action σ Catalog)).outcome (w, p) = (.ok w.catalog, (w, p)) := rfl
  unfold Meets
  rw [outcome_bind_of_ok hcatalog, outcome_bind_of_ok hcatalog]
  exact h w.catalog hw w p hw hp

/-- What follows on a look at the progress may rely on the concepts that are being expanded. -/
theorem progress_bind {f g : Progress → Compiling σ β}
    (h : ∀ p : Progress, p.expanding = stack → Alike t stack flag (f p) (g p)) :
    Alike t stack flag (progress >>= f) (progress >>= g) := by
  intro w p hw hp
  have hprogress : (progress : Compiling σ Progress).outcome (w, p) = (.ok p, (w, p)) := rfl
  unfold Meets
  rw [outcome_bind_of_ok hprogress, outcome_bind_of_ok hprogress]
  exact h p hp w p hw hp

/-- A concept is put on the stack while it is being expanded, and taken off again in any case. -/
theorem expandingOf {hash : String} {x y : Compiling σ α}
    (h : Alike t (stack ++ [hash]) flag x y) :
    Alike t stack flag (Compiling.expandingOf hash x) (Compiling.expandingOf hash y) := by
  intro w p hw hp
  have hpushed : (p.expanding ++ [hash]) = stack ++ [hash] := by rw [hp]
  rcases h w { p with expanding := p.expanding ++ [hash] } hw hpushed with
    ⟨hsame, hw', hp', hfound⟩
  unfold Meets
  rw [outcome_expandingOf, outcome_expandingOf, hsame]
  refine ⟨rfl, hw', ?_, hfound⟩
  exact (congrArg List.dropLast hp').trans List.dropLast_concat

/-- A concept that refers to itself is reported. -/
theorem report_circular (c : Entity) (text : String) :
    Alike t stack True (report (.circular c text) : Compiling σ Unit) (report (.circular c text)) := by
  intro w p hw hp
  have hfound : ({ p with defects := p.defects ++ [.circular c text] } : Progress).isCircular = true := by
    simp [Progress.isCircular, Defect.isCircular]
  exact ⟨rfl, hw, hp, fun _ _ => ⟨fun _ => .inr trivial, fun _ => hfound⟩⟩

end Alike

end Compiling

/-! ## The expansion of concepts -/

namespace Deployment

open Compiling Concepts

variable {t : Table String String}

/-- Expands concepts, so and so many within each other. At the limit they are expanded in some other
way. -/
def expandWith (d : Deployment σ) (atLimit : Expansion σ) : Nat → Expansion σ
  | 0 => atLimit
  | n + 1 => d.compileConcept (d.compileNode (d.expandWith atLimit n))

theorem expandConcept_eq (d : Deployment σ) (n : Nat) :
    d.expandConcept n = d.expandWith (fun _ _ _ => return some Clause.nothing) n := by
  induction n with
  | zero => rfl
  | succ n ih => rw [expandConcept, expandWith, ih]

/-- Two ways of expanding concepts do the same, and report a cycle for those that are flagged. -/
def ExpandsAlike (t : Table String String) (stack : List String) (expand other : Expansion σ) : Prop :=
  ∀ isMember path (c : Entity), Alike t stack (Flagged t stack c.hash) (expand isMember path c)
    (other isMember path c)

/-- A property before another one: what lies behind it is compiled in between. -/
theorem alike_chained (d : Deployment σ) {stack : List String} {flag : Prop}
    {x y : String → Compiling σ (Option Json)} (h : ∀ field, Alike t stack flag (x field) (y field))
    (chain : Option String) (p : Property) (depth : Option Int) (rest : Description) :
    let run (x : String → Compiling σ (Option Json)) : Compiling σ (Option Json) := do
      let site ← .act (d.propertySite p depth)
      let clause ← x (Field.inGroup site.1 Field.numbers)
      let clause ← d.chainClause p (Field.inGroup site.1 Field.numbers) rest clause
      d.linked chain p (.someProperty p rest depth) clause
    Alike t stack flag (run x) (run y) :=
  Alike.leaf_bind (leaves_onCatalog (d.onCatalog_propertySite _ _)) fun _ => (h _).bind_leaf fun _ =>
    (d.leaves_chainClause _ _ _ _).bind fun _ => d.leaves_linked _ _ _ _

mutual

/-- By induction on the description: every concept in it is expanded, and nothing else has to do with
concepts. -/
theorem alike_node (d : Deployment σ) {stack : List String} {expand other : Expansion σ}
    (h : ExpandsAlike t stack expand other) (isMember : Bool) (path : List Nat) :
    (node : Description) → Alike t stack (∃ e ∈ node.concepts, Flagged t stack e.hash)
      (d.compileNode expand isMember path node) (d.compileNode other isMember path node)
  | .conjunction ds => by
      refine Alike.leaf_bind (d.leaves_visit _) fun _ => Alike.bind_leaf ?_ fun _ => Leaves.pure _
      exact alike_members d h path 0 ds
  | .disjunction ds => by
      refine Alike.leaf_bind (d.leaves_visit _) fun _ => Alike.bind_leaf ?_ fun _ =>
        leaves_disjoined _
      exact alike_members d h path 0 ds
  | .category categories depth negated => by
      refine (Alike.leaf_bind (d.leaves_visit _) fun _ => Alike.of_leaves ?_).iff
        (by simp [Description.concepts])
      exact (leaves_onCatalog (d.onCatalog_categoryClause _ _ _ _)).bind fun _ => Leaves.pure _
  | .concept c => by
      refine (Alike.leaf_bind (d.leaves_visit _) fun _ => h isMember path c).iff ?_
      simp [Description.concepts]
  | .space n => by
      refine (Alike.leaf_bind (d.leaves_visit _) fun _ => Alike.pure _).iff
        (by simp [Description.concepts])
  | .someProperty p inner depth => by
      refine Alike.leaf_bind (d.leaves_visit _) fun _ => ?_
      exact alike_property d h path none p depth inner
  | .value item comparator property => by
      refine (Alike.leaf_bind (d.leaves_visit _) fun _ => Alike.of_leaves ?_).iff
        (by simp [Description.concepts])
      exact (d.leaves_entityClause _ _ _ _).bind fun _ => Leaves.pure _
  | .thing negated => by
      refine (Alike.leaf_bind (d.leaves_visit _) fun _ => Alike.pure _).iff
        (by simp [Description.concepts])

theorem alike_members (d : Deployment σ) {stack : List String} {expand other : Expansion σ}
    (h : ExpandsAlike t stack expand other) (path : List Nat) :
    (i : Nat) → (ds : List Description) →
    Alike t stack (∃ e ∈ Description.allConcepts ds, Flagged t stack e.hash)
      (d.compileMembers expand path i ds) (d.compileMembers other path i ds)
  | _, [] => (Alike.pure _).iff (by simp [Description.allConcepts])
  | i, m :: ms => by
      have hm := alike_node d h true (path ++ [i]) m
      have hms := alike_members d h path (i + 1) ms
      refine (hm.bind fun _ => hms.bind_leaf fun _ => Leaves.pure _).iff ?_
      simp only [Description.allConcepts, List.mem_append, or_and_right, exists_or]

theorem alike_property (d : Deployment σ) {stack : List String} {expand other : Expansion σ}
    (h : ExpandsAlike t stack expand other) (path : List Nat) (chain : Option String) (p : Property)
    (depth : Option Int) :
    (inner : Description) → Alike t stack (∃ e ∈ inner.concepts, Flagged t stack e.hash)
      (d.compileProperty expand path chain p depth inner)
      (d.compileProperty other path chain p depth inner)
  | .someProperty q (.disjunction ds) qdepth => by
      refine Alike.leaf_bind (leaves_onCatalog (d.onCatalog_propertySite _ _)) fun _ => ?_
      exact (alike_alternatives d h (path ++ [0]) _ q qdepth 0 ds).bind_leaf fun _ =>
        (d.leaves_chainClause _ _ _ _).bind fun _ => d.leaves_linked _ _ _ _
  | .someProperty q (.conjunction ds) qdepth =>
      d.alike_chained (fun field => alike_property d h _ (some field) q qdepth (.conjunction ds))
        chain p depth _
  | .someProperty q (.category cs cdepth negated) qdepth =>
      d.alike_chained (fun field => alike_property d h _ (some field) q qdepth
        (.category cs cdepth negated)) chain p depth _
  | .someProperty q (.concept c) qdepth =>
      d.alike_chained (fun field => alike_property d h _ (some field) q qdepth (.concept c))
        chain p depth _
  | .someProperty q (.space n) qdepth =>
      d.alike_chained (fun field => alike_property d h _ (some field) q qdepth (.space n))
        chain p depth _
  | .someProperty q (.someProperty q' inner' depth') qdepth =>
      d.alike_chained (fun field => alike_property d h _ (some field) q qdepth
        (.someProperty q' inner' depth')) chain p depth _
  | .someProperty q (.value item comparator property) qdepth =>
      d.alike_chained (fun field => alike_property d h _ (some field) q qdepth
        (.value item comparator property)) chain p depth _
  | .someProperty q (.thing negated) qdepth =>
      d.alike_chained (fun field => alike_property d h _ (some field) q qdepth (.thing negated))
        chain p depth _
  | .value item comparator property => by
      refine (Alike.of_leaves ?_).iff (by simp [Description.concepts])
      exact (leaves_onCatalog (d.onCatalog_propertySite _ _)).bind fun _ =>
        (d.leaves_valueClause _ _ _ _ _ _).bind fun _ => d.leaves_linked _ _ _ _
  | .thing negated => by
      refine (Alike.of_leaves ?_).iff (by simp [Description.concepts])
      exact (leaves_onCatalog (d.onCatalog_propertySite _ _)).bind fun _ => d.leaves_linked _ _ _ _
  | .disjunction ds => by
      refine Alike.leaf_bind (leaves_onCatalog (d.onCatalog_propertySite _ _)) fun _ => ?_
      exact (alike_alternatives d h (path ++ [0]) none p depth 0 ds).bind_leaf fun _ =>
        d.leaves_linked _ _ _ _
  | .conjunction ds => by
      refine Alike.leaf_bind (leaves_onCatalog (d.onCatalog_propertySite _ _)) fun _ =>
        Alike.leaf_bind (Leaves.ofExcept _) fun _ => ?_
      exact (alike_members d h (path ++ [0]) 0 ds).bind_leaf fun _ =>
        (d.leaves_objectClause _ _ _ _).bind fun _ => d.leaves_linked _ _ _ _
  | .category categories categoryDepth negated => by
      refine (Alike.of_leaves ?_).iff (by simp [Description.concepts])
      exact (leaves_onCatalog (d.onCatalog_propertySite _ _)).bind fun _ =>
        (Leaves.ofExcept _).bind fun _ => (d.leaves_visit _).bind fun _ =>
          (leaves_onCatalog (d.onCatalog_categoryClause _ _ _ _)).bind fun _ =>
            (d.leaves_objectClause _ _ _ _).bind fun _ => d.leaves_linked _ _ _ _
  | .concept c => by
      refine (Alike.leaf_bind (leaves_onCatalog (d.onCatalog_propertySite _ _)) fun _ =>
        Alike.leaf_bind (Leaves.ofExcept _) fun _ => Alike.leaf_bind (d.leaves_visit _) fun _ =>
          (h true (path ++ [0]) c).bind_leaf fun _ => ?_).iff (by simp [Description.concepts])
      exact (d.leaves_objectClause _ _ _ _).bind fun _ => d.leaves_linked _ _ _ _
  | .space n => by
      refine (Alike.of_leaves ?_).iff (by simp [Description.concepts])
      exact (leaves_onCatalog (d.onCatalog_propertySite _ _)).bind fun _ =>
        (Leaves.ofExcept _).bind fun _ => (d.leaves_visit _).bind fun _ =>
          (d.leaves_objectClause _ _ _ _).bind fun _ => d.leaves_linked _ _ _ _

theorem alike_alternatives (d : Deployment σ) {stack : List String} {expand other : Expansion σ}
    (h : ExpandsAlike t stack expand other) (path : List Nat) (chain : Option String) (p : Property)
    (depth : Option Int) :
    (i : Nat) → (ds : List Description) →
    Alike t stack (∃ e ∈ Description.allConcepts ds, Flagged t stack e.hash)
      (d.compileAlternatives expand path chain p depth i ds)
      (d.compileAlternatives other path chain p depth i ds)
  | _, [] => (Alike.pure _).iff (by simp [Description.allConcepts])
  | i, m :: ms => by
      have hm := alike_property d h (path ++ [i]) chain p depth m
      have hms := alike_alternatives d h path chain p depth (i + 1) ms
      refine (hm.bind fun _ => hms.bind_leaf fun _ => Leaves.pure _).iff ?_
      simp only [Description.allConcepts, List.mem_append, or_and_right, exists_or]

end

/-- The expansion of a concept does the same if the compilation of stored descriptions does so for
concepts that are not being expanded already. -/
theorem alike_concept (d : Deployment σ) {stack : List String}
    {compile other : Bool → List Nat → Description → Compiling σ (Option Json)}
    (h : ∀ hash inner, definition? t hash = some inner → hash ∉ stack → ∀ isMember path,
      Alike t (stack ++ [hash]) (∃ e ∈ inner.concepts, Flagged t (stack ++ [hash]) e.hash)
        (compile isMember path inner) (other isMember path inner)) :
    ExpandsAlike t stack (d.compileConcept compile) (d.compileConcept other) := by
  intro isMember path c
  unfold compileConcept
  refine Alike.catalog_bind fun catalog hcatalog => ?_
  have hquery : catalog.query? c = t.get? c.hash := by rw [Catalog.query?, hcatalog]
  rw [hquery]
  cases hget : t.get? c.hash with
  | none =>
      have hnone : definition? t c.hash = none := by simp [definition?, hget]
      exact (Alike.pure _).iff (by simp [not_flagged hnone])
  | some stored =>
      by_cases hempty : stored = ""
      · subst hempty
        have hnone : definition? t c.hash = none := by simp [definition?, hget]
        exact (Alike.pure _).iff (by simp [not_flagged hnone])
      · have hdef : definition? t c.hash = (Description.parse stored).toOption := by
          simp [definition?, hget]
        simp only
        cases hparse : Description.parse stored with
        | error e =>
            have hnone : definition? t c.hash = none := by rw [hdef, hparse]; rfl
            refine (Alike.of_leaves ?_).iff (by simp [not_flagged hnone])
            exact (Leaves.ofExcept _).bind fun _ => (leaves_report (by rfl)).bind fun _ =>
              Leaves.pure _
        | ok inner =>
            have hinner : definition? t c.hash = some inner := by rw [hdef, hparse]; rfl
            refine (Alike.progress_bind fun p hp => ?_).iff (flagged_iff hinner).symm
            rw [hp]
            by_cases hseen : c.hash ∈ stack ∨ inner.refersTo c.hash = true
            · have hcheck : (stack.contains c.hash || inner.refersTo c.hash) = true := by
                simpa using hseen
              rw [if_pos hcheck, if_pos hcheck]
              refine (Alike.leaf_bind (Leaves.ofExcept _) fun text =>
                (Alike.report_circular c text).bind_leaf fun _ => Leaves.pure _).iff ?_
              simp [hseen]
            · have hcheck : ¬ (stack.contains c.hash || inner.refersTo c.hash) = true := by
                simpa using hseen
              rw [if_neg hcheck, if_neg hcheck]
              have hnew : c.hash ∉ stack := fun hmem => hseen (.inl hmem)
              refine ((Alike.expandingOf (h c.hash inner hinner hnew isMember (path ++ [0]))).bind_leaf
                fun _ => d.leaves_conceptClause _ _ _).iff ?_
              simp only [hseen, false_or]

/-- By induction on the limit: with more expansions allowed than there are concepts left, the limit is
not reached. -/
theorem alike_expandWith (d : Deployment σ) (atLimit other : Expansion σ) (n m : Nat)
    (stack : List String) (hn : (unexpanded t stack).card < n) (hm : (unexpanded t stack).card < m) :
    ExpandsAlike t stack (d.expandWith atLimit n) (d.expandWith other m) := by
  induction n generalizing m stack with
  | zero => omega
  | succ n ih =>
      cases m with
      | zero => omega
      | succ m =>
          refine d.alike_concept fun hash inner hdef hnew isMember path => ?_
          have hless := card_unexpanded_lt hdef hnew
          exact alike_node d (ih m _ (by omega) (by omega)) isMember path inner

theorem card_unexpanded_le (stack : List String) : (unexpanded t stack).card ≤ t.length := by
  calc (unexpanded t stack).card ≤ t.keys.toFinset.card := Finset.card_le_card Finset.sdiff_subset
    _ ≤ t.keys.length := t.keys.toFinset_card_le
    _ = t.length := List.length_map _

/-- The compilation of a tree and the same with any other limit and anything done there. -/
theorem alike_compileTree (d : Deployment σ) (w : World σ) (p : Progress) (isMember : Bool)
    (description : Description) (atLimit : Expansion σ) (n : Nat)
    (hn : w.catalog.concepts.length < n) :
    (d.compileNode (d.expandWith atLimit n) isMember [] description).outcome (w, p) =
        (d.compileTree isMember description).outcome (w, p) ∧
    (d.compileTree isMember description).Meets (w, p) fun r s =>
      s.1.catalog.concepts = w.catalog.concepts ∧ s.2.expanding = p.expanding ∧
        ∀ a, r = .ok a → (s.2.isCircular = true ↔ p.isCircular = true ∨
          ∃ e ∈ description.concepts, Flagged w.catalog.concepts p.expanding e.hash) := by
  have hleft := card_unexpanded_le (t := w.catalog.concepts) p.expanding
  have hexpand : ExpandsAlike w.catalog.concepts p.expanding
      (d.expandWith (fun _ _ _ => return some Clause.nothing) (w.catalog.concepts.length + 1))
      (d.expandWith atLimit n) := d.alike_expandWith _ _ _ _ _ (by omega) (by omega)
  have hcatalog : (Compiling.act (catalog : Action σ Catalog)).outcome (w, p) =
      (.ok w.catalog, (w, p)) := rfl
  have htree : (d.compileTree isMember description).outcome (w, p) =
      (d.compileNode (d.expandWith (fun _ _ _ => return some Clause.nothing)
        (w.catalog.concepts.length + 1)) isMember [] description).outcome (w, p) := by
    unfold compileTree
    rw [outcome_bind_of_ok hcatalog]
    dsimp only
    rw [expandConcept_eq]
  unfold Meets
  rw [htree]
  exact alike_node d hexpand isMember [] description w p rfl rfl

/-- The expansion of concepts ends within as many levels as there are stored queries: whatever is done
beyond, and however many levels are allowed beyond, the outcome is the same. If compiling a description
answers, then a concept that refers to itself has been reported exactly if a cycle of references can be
reached from the description. Whatever the answer, the concepts that are being expanded are those from
before. -/
theorem compile_circular (d : Deployment σ) (w : World σ) (isMember : Bool)
    (description : Description) :
    (∀ atLimit n p, w.catalog.concepts.length < n →
      (d.compileNode (d.expandWith atLimit n) isMember [] description).outcome (w, p) =
        (d.compileTree isMember description).outcome (w, p)) ∧
    (∀ query progress after,
      (d.compile isMember description).outcome w = (.ok (query, progress), after) →
      ((∃ e ∈ progress.defects, e.isCircular = true) ↔
        ∃ c ∈ description.concepts, LeadsToCycle w.catalog.concepts c.hash)) ∧
    ∀ p, ((d.compileTree isMember description).outcome (w, p)).2.2.expanding = p.expanding := by
  refine ⟨?_, ?_, ?_⟩
  · intro atLimit n p hn
    exact (d.alike_compileTree w p isMember description atLimit n hn).1
  · intro query progress after hcompile
    have htree := (d.alike_compileTree w {} isMember description (fun _ _ _ => return none) _
      (Nat.lt_succ_self _)).2
    unfold compile start at hcompile
    rw [outcome_make] at hcompile
    rcases hr : (d.compileTree isMember description).outcome (w, {}) with ⟨e | a, w', p'⟩
    · rw [hr] at hcompile
      cases hcompile
    · rw [hr] at hcompile
      cases hcompile
      have hfound := (htree.of_outcome hr).2.2 query rfl
      simpa [Progress.isCircular, flagged_iff_leadsToCycle] using hfound
  · intro p
    exact (d.alike_compileTree w p isMember description (fun _ _ _ => return none) _
      (Nat.lt_succ_self _)).2.2.1

end Deployment

end FactIndex
