import FactIndex.Proofs.Compile.Cycle
import FactIndex.Proofs.Compile.Membership

/-!
# What a disjunction selects

A member of a disjunction that puts no constraint on entities has no clause, and is left out. So a
disjunction selects what one of the members with a constraint selects. It selects everything only if
no member has a constraint.

The members are compared with the same descriptions compiled on their own, one after the other.

## Main definitions

* `Clause.selects`: what a query selects, if there is one.
* `Deployment.coincide_members`: members of a compound, and the same descriptions on their own.
* `Deployment.compile_disjunction`: what a disjunction selects.
-/

namespace FactIndex

open FactIndex.Effect

variable {σ : Type}

/-- Whether a query selects a document. Without a query every document is selected. -/
def Clause.selects (M : Matching) (doc : Indexed) (query : Option Json) : Bool :=
  holds M doc (query.getD everything)

/-! ## Sequences -/

/-- A sequence fails if one of its parts fails wherever it starts. -/
theorem Effect.mapM_error {τ α β : Type} {f : α → Effect τ β} {as : List α}
    (h : ∃ a ∈ as, ∀ s, ∃ e, ((f a).outcome s).1 = .error e) (s : τ) :
    ∃ e, ((as.mapM f).outcome s).1 = .error e := by
  induction as generalizing s with
  | nil => simp at h
  | cons a as ih =>
      rw [List.mapM_cons]
      rcases hr : ((f a).outcome s).1 with e | b
      · exact ⟨e, fst_bind_of_error hr _⟩
      · obtain ⟨c, hmem, hc⟩ := h
        have hrest : ∃ c ∈ as, ∀ s, ∃ e, ((f c).outcome s).1 = .error e := by
          rcases List.mem_cons.mp hmem with rfl | hmem
          · obtain ⟨e, he⟩ := hc s
            rw [he] at hr
            cases hr
          · exact ⟨c, hmem, hc⟩
        obtain ⟨e, he⟩ := ih hrest ((f a).outcome s).2
        rw [outcome_bind_of_answer hr]
        exact ⟨e, fst_bind_of_error he _⟩

namespace Description

theorem mem_allTimes {t : Calendar.Time} {ds : List Description} :
    t ∈ allTimes ds ↔ ∃ d ∈ ds, t ∈ d.times := by
  induction ds with
  | nil => simp [allTimes]
  | cons d ds ih => simp [allTimes, ih]

/-- If a disjunction cannot be shown, then neither can one of its members. -/
theorem exists_member_of_portrait {ds : List Description}
    (h : ¬ ∃ ms, (disjunction ds).portrait = .ok ms) : ∃ d ∈ ds, ¬ ∃ ms, d.portrait = .ok ms := by
  simp only [isOk_portrait, times] at h ⊢
  by_contra hnone
  refine h fun t ht => ?_
  obtain ⟨d, hd, ht⟩ := mem_allTimes.mp ht
  by_contra ht'
  exact hnone ⟨d, hd, fun hall => ht' (hall t ht)⟩

end Description

namespace Deployment

open Compiling

variable {d : Deployment σ}

/-- Every node is visited first. -/
theorem compileNode_eq (d : Deployment σ) (expand : Expansion σ) (isMember : Bool) (path : List Nat)
    (node : Description) : ∃ rest, d.compileNode expand isMember path node =
      d.visit node >>= fun _ => rest := by
  cases node <;> rw [compileNode] <;> exact ⟨_, rfl⟩

/-- A description that cannot be shown cannot be compiled where nodes are recorded. -/
theorem compile_error_of_portrait (hlog : d.settings.query.nodeLog = true) {node : Description}
    (h : ¬ ∃ ms, node.portrait = .ok ms) (isMember : Bool) (w : World σ) :
    ∃ e, ((d.compile isMember node).outcome w).1 = .error e := by
  obtain ⟨rest, hrest⟩ := d.compileNode_eq (d.expandConcept (w.catalog.concepts.length + 1)) isMember
    [] node
  have hvisit : ∃ e, ((d.visit node).outcome (w, {})).1 = .error e := by
    unfold visit
    rw [if_pos hlog]
    cases hp : node.portrait with
    | ok ms => exact absurd ⟨ms, hp⟩ h
    | error e => exact ⟨e, rfl⟩
  obtain ⟨e, he⟩ := hvisit
  rw [outcome_compile, hrest]
  have herror := fst_bind_of_error he fun _ => rest
  dsimp only
  rw [herror]
  exact ⟨e, rfl⟩

/-- Compiling leaves the stored queries of concepts alone. -/
theorem keepsConcepts_compile (d : Deployment σ) (isMember : Bool) (node : Description) :
    KeepsConcepts (d.compile isMember node) := by
  intro w
  have hmeets := (d.alike_compileTree w {} isMember node (fun _ _ _ => return none) _
    (Nat.lt_succ_self _)).2
  unfold compile
  rw [outcome_start]
  exact hmeets.1

/-- By induction on the members: those of a compound come to clauses that select the same as the
clauses of the descriptions on their own. Where negated conditions are not noted, none is. -/
theorem coincide_members (hnoted : d.settings.query.negatedExists = false)
    (h : d.settings.query.conceptLookup = true → d.client.SearchesAlike) (ds : List Description)
    (i : Nat) {s : World σ × Progress} {w : World σ} (hworld : w.unrecorded = s.1.unrecorded)
    (hexpanding : s.2.expanding = []) (hnegated : ∀ position, s.2.negated.get? position = none) :
    let n := w.catalog.concepts.length + 1
    Coincide (fun clauses results => List.Forall₂ Clause.Interchangeable
        (results.filterMap (·.1)) (clauses.map (·.2)))
      ((d.compileMembers (d.expandConcept n) [] i ds).outcome s).1
      ((ds.mapM (d.compile false)).outcome w).1 := by
  induction ds generalizing i s w with
  | nil => exact .nil
  | cons m ms ih =>
      intro n
      have hstart : (unrecordedTie σ).Holds [] [i] (w, {}) s :=
        ⟨hworld, hexpanding.symm, fun rest => (hnegated _).symm⟩
      have hagree := agree_root h n [] [i] m
      have hsame := hagree.coincide (w, {}) s hstart trivial trivial
      have hcompile := d.outcome_compile false m w
      have hconcepts := d.keepsConcepts_compile false m w
      rw [compileMembers, List.mapM_cons, List.nil_append]
      rcases hr : (d.compileNode (d.expandConcept n) false [] m).outcome (w, {}) with ⟨e | a, t⟩ <;>
        rcases hr' : (d.compileNode (d.expandConcept n) true [i] m).outcome s with ⟨e' | b, t'⟩ <;>
        rw [hr, hr'] at hsame <;> rw [hr] at hcompile <;> rw [hcompile] at hconcepts
      · rw [outcome_bind_of_error hr', outcome_bind_of_error hcompile]
        trivial
      · exact False.elim hsame
      · exact False.elim hsame
      · rw [outcome_bind_of_ok hr', outcome_bind_of_ok hcompile]
        obtain ⟨hab, ht⟩ := hsame
        have hexpanding' := hagree.right.expanding s
        have hnegated' : ∀ position, t'.2.negated.get? position = none := fun position => by
          have hkept := hagree.right.negated s position (by simp [hnoted])
          rw [hr'] at hkept
          rw [hkept, hnegated]
        rw [hr'] at hexpanding'
        have hrest := ih (i + 1) (s := t') (w := t.1) ht.base
          (hexpanding'.trans hexpanding) hnegated'
        have hn : t.1.catalog.concepts.length + 1 = n :=
          congrArg (fun concepts => List.length concepts + 1) hconcepts
        dsimp only at hrest
        rw [hn] at hrest
        rw [outcome_bind, outcome_bind]
        rcases hms : (d.compileMembers (d.expandConcept n) [] (i + 1) ms).outcome t' with
          ⟨e | clauses, u⟩ <;>
          rcases hms' : (ms.mapM (d.compile false)).outcome t.1 with ⟨e' | results, u'⟩ <;>
          rw [hms, hms'] at hrest
        · trivial
        · exact hrest
        · exact hrest
        · cases hab with
          | none => exact hrest
          | some hab => exact .cons hab hrest

/-- Where no negated condition is noted, a disjunction asks for no field besides. -/
theorem negatedFields_of_none {p : Progress} (h : ∀ position, p.negated.get? position = none)
    (positions : List (List Nat)) : negatedFields p positions = [] := by
  unfold negatedFields
  induction positions with
  | nil => rfl
  | cons position positions ih =>
      rw [List.foldl_cons, h]
      exact ih

/-- A disjunction of clauses selects what one of the members with a constraint selects, or everything
if there are none. -/
theorem selects_joined {results : List (Option Json × Progress)} {clauses : List Json}
    (h : List.Forall₂ Clause.Interchangeable (results.filterMap (·.1)) clauses) (M : Matching)
    (doc : Indexed) : Clause.selects M doc (joined .should clauses) = true ↔
      (∃ m ∈ results, m.1 ≠ none ∧ Clause.selects M doc m.1 = true) ∨ ∀ m ∈ results, m.1 = none := by
  have hany : ∀ {as bs : List Json}, List.Forall₂ Clause.Interchangeable as bs →
      as.any (Clause.holds M doc) = bs.any (Clause.holds M doc) := by
    intro as bs h
    induction h with
    | nil => rfl
    | cons hab _ ih => rw [List.any_cons, List.any_cons, hab.holds_eq, ih]
  have hsome : (results.filterMap (·.1)).any (Clause.holds M doc) = true ↔
      ∃ m ∈ results, m.1 ≠ none ∧ Clause.selects M doc m.1 = true := by
    simp only [List.any_eq_true, List.mem_filterMap]
    constructor
    · rintro ⟨clause, ⟨m, hm, hclause⟩, hholds⟩
      exact ⟨m, hm, by simp [hclause], by simpa [Clause.selects, hclause] using hholds⟩
    · rintro ⟨m, hm, hconstrained, hholds⟩
      obtain ⟨clause, hclause⟩ := Option.ne_none_iff_exists'.mp hconstrained
      exact ⟨clause, ⟨m, hm, hclause⟩, by simpa [Clause.selects, hclause] using hholds⟩
  rw [← hsome, hany h]
  cases clauses with
  | nil =>
      have hnone : ∀ m ∈ results, m.1 = none := by
        intro m hm
        by_contra hconstrained
        obtain ⟨clause, hclause⟩ := Option.ne_none_iff_exists'.mp hconstrained
        have hmem : clause ∈ results.filterMap (·.1) := List.mem_filterMap.mpr ⟨m, hm, hclause⟩
        rw [List.forall₂_nil_right_iff.mp h] at hmem
        cases hmem
      have hall : Clause.selects M doc (joined .should []) = true := by
        simp [joined, Clause.selects, Clause.holds_everything]
      exact ⟨fun _ => .inr hnone, fun _ => hall⟩
  | cons clause clauses =>
      have hconstrained : ¬ ∀ m ∈ results, m.1 = none := by
        intro hnone
        have hempty : results.filterMap (·.1) = [] := List.filterMap_eq_nil_iff.mpr hnone
        rw [hempty] at h
        cases h
      have hjoined : Clause.selects M doc (joined .should (clause :: clauses)) =
          (clause :: clauses).any (Clause.holds M doc) := by
        simp [joined, Clause.selects]
      rw [hjoined]
      exact ⟨.inl, fun h => h.resolve_right hconstrained⟩

/-- Where a disjunction is the union of its members. -/
theorem union_iff {results : List (Option Json × Progress)} (hne : results ≠ []) (M : Matching)
    (doc : Indexed) :
    let constrained := ∃ m ∈ results, m.1 ≠ none ∧ Clause.selects M doc m.1 = true
    ((constrained ∨ ∀ m ∈ results, m.1 = none) ↔
        ∃ m ∈ results, Clause.selects M doc m.1 = true) ↔
      constrained ∨ (∀ m ∈ results, m.1 = none) ∨ ∀ m ∈ results, m.1 ≠ none := by
  have hfree : ∀ m ∈ results, m.1 = none → Clause.selects M doc m.1 = true := by
    intro m _ hnone
    simp [Clause.selects, hnone, Clause.holds_everything]
  intro constrained
  constructor
  · intro hunion
    by_contra hneither
    simp only [not_or] at hneither
    obtain ⟨hno, hsome, hall⟩ := hneither
    have hfreed : ∃ m ∈ results, m.1 = none := by
      by_contra hnone
      exact hall fun m hm h => hnone ⟨m, hm, h⟩
    obtain ⟨m, hm, hnone⟩ := hfreed
    rcases hunion.mpr ⟨m, hm, hfree m hm hnone⟩ with h | h
    · exact hno h
    · exact hsome h
  · rintro (⟨m, hm, hconstrained, hselects⟩ | hnone | hall)
    · exact ⟨fun _ => ⟨m, hm, hselects⟩, fun _ => .inl ⟨m, hm, hconstrained, hselects⟩⟩
    · obtain ⟨m, hm⟩ := List.exists_mem_of_ne_nil results hne
      exact ⟨fun _ => ⟨m, hm, hfree m hm (hnone m hm)⟩, fun _ => .inr hnone⟩
    · constructor
      · rintro (⟨m, hm, -, hselects⟩ | hnone)
        · exact ⟨m, hm, hselects⟩
        · obtain ⟨m, hm⟩ := List.exists_mem_of_ne_nil results hne
          exact absurd (hnone m hm) (hall m hm)
      · rintro ⟨m, hm, hselects⟩
        exact .inl ⟨m, hm, hall m hm, hselects⟩

/-- The query of a disjunction selects what one of its members with a constraint selects, or everything
if no member has one. So it is the union of what the members select at exactly those documents that
a member with a constraint selects, unless either all or none of the members have a constraint: one
without a constraint is dropped, although on its own it selects everything.

The members are compiled on their own, one after the other, from the same world as the disjunction. If
one of them cannot be compiled, neither can the disjunction, and conversely. -/
theorem compile_disjunction (d : Deployment σ) (hnoted : d.settings.query.negatedExists = false)
    (h : d.settings.query.conceptLookup = true → d.client.SearchesAlike) {ds : List Description}
    (hne : ds ≠ []) (w : World σ) :
    Coincide (fun joint results => ∀ M doc,
        (Clause.selects M doc joint.1 = true ↔
          (∃ m ∈ results, m.1 ≠ none ∧ Clause.selects M doc m.1 = true) ∨
            ∀ m ∈ results, m.1 = none) ∧
        ((Clause.selects M doc joint.1 = true ↔
            ∃ m ∈ results, Clause.selects M doc m.1 = true) ↔
          (∃ m ∈ results, m.1 ≠ none ∧ Clause.selects M doc m.1 = true) ∨
            (∀ m ∈ results, m.1 = none) ∨ ∀ m ∈ results, m.1 ≠ none))
      ((d.compile false (.disjunction ds)).outcome w).1
      ((ds.mapM (d.compile false)).outcome w).1 := by
  have hjoint := d.outcome_compile false (.disjunction ds) w
  rw [compileNode] at hjoint
  by_cases hshown : d.settings.query.nodeLog = true ∧ ¬ ∃ ms, (Description.disjunction ds).portrait = .ok ms
  · obtain ⟨m, hm, hportrait⟩ := Description.exists_member_of_portrait hshown.2
    obtain ⟨e, he⟩ := d.compile_error_of_portrait hshown.1 hshown.2 false w
    obtain ⟨e', he'⟩ := Effect.mapM_error ⟨m, hm, d.compile_error_of_portrait hshown.1 hportrait false⟩ w
    rw [he, he']
    trivial
  · have hvisit : ∃ p : Progress, (d.visit (.disjunction ds)).outcome (w, {}) = (.ok (), (w, p)) ∧
        p.expanding = [] ∧ p.negated = [] := by
      unfold visit
      split
      · rename_i hlog
        have hportrait : ∃ ms, (Description.disjunction ds).portrait = .ok ms := by
          by_contra hno
          exact hshown ⟨hlog, hno⟩
        obtain ⟨ms, hms⟩ := hportrait
        rw [hms]
        exact ⟨_, rfl, rfl, rfl⟩
      · exact ⟨_, rfl, rfl, rfl⟩
    obtain ⟨p, hvisit, hexpanding, hnegated⟩ := hvisit
    rw [outcome_bind_of_ok hvisit] at hjoint
    have hmembers := coincide_members hnoted h ds 0 (s := (w, p)) (w := w) rfl hexpanding
      fun position => by rw [hnegated]; rfl
    have htame := (agree_members (isKept_unrecordedTie d) (agree_expandConcept
      (isKept_unrecordedTie d) (w.catalog.concepts.length + 1)) [] [] 0 ds).left
    dsimp only at hmembers
    rcases hclauses : (d.compileMembers (d.expandConcept (w.catalog.concepts.length + 1)) [] 0 ds).outcome
        (w, p) with ⟨e | clauses, t⟩ <;>
      rcases hresults : (ds.mapM (d.compile false)).outcome w with ⟨e' | results, u⟩ <;>
      rw [hclauses, hresults] at hmembers
    · rw [hjoint, outcome_bind_of_error hclauses]
      trivial
    · exact False.elim hmembers
    · exact False.elim hmembers
    · have hnone : ∀ position, t.2.negated.get? position = none := fun position => by
        have hkept := htame.negated (w, p) position (by simp [hnoted])
        rw [hclauses] at hkept
        rw [hkept, hnegated]
        rfl
      have hsame : ∀ query : Option Json, (query.map fun query =>
          if ([] : List String).isEmpty = true then query
          else Clause.compound .must (query :: ([] : List String).map Clause.hasField)) = query :=
        fun query => by cases query <;> rfl
      have hsome : results ≠ [] := by
        have hlength := length_of_mapM hresults
        rintro rfl
        exact hne (List.length_eq_zero_iff.mp hlength.symm)
      rw [hjoint, outcome_bind_of_ok hclauses, outcome_disjoined, negatedFields_of_none hnone, hsame]
      intro M doc
      have hselects := selects_joined hmembers M doc
      refine ⟨hselects, ?_⟩
      show ((Clause.selects M doc (joined .should (clauses.map (·.2))) = true ↔ _) ↔ _)
      rw [hselects]
      exact union_iff hsome M doc

private def freeDeployment : Deployment Unit where
  settings := { query := { negatedExists := false } }
  client := ⟨fun _ s => (.error .connection, s)⟩
  cache := {}
  queue := {}

private def freeWorld : World Unit := { engine := (), catalog := { next := 1 } }

/-- All entities, or those of a namespace. -/
private def freeMembers : List Description := [.thing false, .space 0]

/-- The query of the disjunction. The member for all entities has been dropped. -/
private def freeJoint : Option Json × Progress :=
  (some (Clause.compound .should [Clause.term "subject.namespace" (.int 0)]), {})

/-- The queries of the members. -/
private def freeResults : List (Option Json × Progress) :=
  [(none, {}), (some (Clause.compound .filter [Clause.term "subject.namespace" (.int 0)]), {})]

private theorem free_run :
    ((freeDeployment.compile false (.disjunction freeMembers)).outcome freeWorld).1 = .ok freeJoint ∧
      ((freeMembers.mapM (freeDeployment.compile false)).outcome freeWorld).1 = .ok freeResults :=
  ⟨rfl, rfl⟩

theorem compile_disjunction_free :
    freeDeployment.settings.query.negatedExists = false ∧
      (freeDeployment.settings.query.conceptLookup = true → freeDeployment.client.SearchesAlike) ∧
      freeMembers ≠ [] ∧
      ((freeDeployment.compile false (.disjunction freeMembers)).outcome freeWorld).1 =
        .ok freeJoint ∧
      ((freeMembers.mapM (freeDeployment.compile false)).outcome freeWorld).1 = .ok freeResults ∧
      ∀ M doc, (Clause.selects M doc freeJoint.1 = true ↔
          (∃ m ∈ freeResults, m.1 ≠ none ∧ Clause.selects M doc m.1 = true) ∨
            ∀ m ∈ freeResults, m.1 = none) ∧
        ((Clause.selects M doc freeJoint.1 = true ↔
            ∃ m ∈ freeResults, Clause.selects M doc m.1 = true) ↔
          (∃ m ∈ freeResults, m.1 ≠ none ∧ Clause.selects M doc m.1 = true) ∨
            (∀ m ∈ freeResults, m.1 = none) ∨ ∀ m ∈ freeResults, m.1 ≠ none) := by
  have halike : freeDeployment.client.SearchesAlike := fun _ _ _ _ _ _ _ => rfl
  have hne : freeMembers ≠ [] := List.cons_ne_nil _ _
  have hunion := compile_disjunction freeDeployment rfl (fun _ => halike) hne freeWorld
  rw [free_run.1, free_run.2] at hunion
  exact ⟨rfl, fun _ => halike, hne, free_run.1, free_run.2, hunion⟩

end Deployment

end FactIndex
