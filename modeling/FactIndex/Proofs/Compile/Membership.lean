import FactIndex.Proofs.Compile.Inline
import FactIndex.Proofs.Compile.Traversal
import FactIndex.Proofs.Store.Unrecorded

/-!
# Members and nodes on their own

A node on its own may be wrapped where a member of a compound is not. Both select the same. A concept
carries the difference into its lookup, so for that the search engine is asked to answer searches alike
that select the same.

## Main definitions

* `SearchClient.SearchesAlike`: an engine that does not mind how a query is worded.
* `Clause.Interchangeable`: clauses that select the same.
* `Compiling.unrecordedTie`: worlds that differ in nothing but the record of requests.
* `Deployment.agree_root`: a node as a member and the same node on its own.
-/

namespace FactIndex

open FactIndex.Effect

variable {σ : Type}

/-- An engine answers searches alike that differ in nothing but the wording of the query. -/
def SearchClient.SearchesAlike (client : SearchClient σ) : Prop :=
  ∀ index before after query query' s,
    (∀ M doc, Clause.holds M doc query = Clause.holds M doc query') →
    client.send (.search index (before ++ ("query", query) :: after)) s =
      client.send (.search index (before ++ ("query", query') :: after)) s

/-! ## Clauses that select the same -/

namespace Clause

/-- Two clauses, neither of them a list, that select the same documents. -/
def Interchangeable (a b : Json) : Prop :=
  a = b ∨ listed a = [a] ∧ listed b = [b] ∧ ∀ M doc, holds M doc a = holds M doc b

namespace Interchangeable

variable {a b : Json}

theorem refl (a : Json) : Interchangeable a a := .inl rfl

theorem holds_eq (h : Interchangeable a b) (M : Matching) (doc : Indexed) :
    holds M doc a = holds M doc b := by
  rcases h with rfl | ⟨-, -, h⟩
  · rfl
  · exact h M doc

theorem compound (occur occur' : Occur) (as bs : List Json)
    (h : ∀ M doc, holds M doc (Clause.compound occur as) = holds M doc (Clause.compound occur' bs)) :
    Interchangeable (Clause.compound occur as) (Clause.compound occur' bs) :=
  .inr ⟨rfl, rfl, h⟩

end Interchangeable

/-- A clause is no list. -/
theorem listed_range {field : String} {value clause : Json} {c : Comparator}
    (h : range field value c = .ok clause) : listed clause = [clause] := by
  unfold range at h
  split at h
  · cases h
    rfl
  · cases h

theorem listed_words (field value : Json) (operator : String) :
    listed (words field value operator) = [words field value operator] := by
  unfold words
  split <;> rfl

theorem listed_overHierarchy {clause : Json} (h : listed clause = [clause]) (group : String)
    (lower : List Int) :
    listed (overHierarchy clause group lower) = [overHierarchy clause group lower] := by
  unfold overHierarchy
  split
  · exact h
  · rfl

theorem holds_everything (M : Matching) (doc : Indexed) : holds M doc everything = true := by
  simp [everything, Json.single, holds, Matching.leaf]

end Clause

namespace Condition

theorem listed_pattern (q : QuerySettings) (field s : String) :
    Clause.listed (pattern q field s) = [pattern q field s] := by
  unfold pattern
  dsimp only
  split <;> split <;> rfl

/-- A condition on an entity is a clause and no list. -/
theorem listed_ofEntity {q : QuerySettings} {field : String} {item : Item} {c : Comparator}
    {value clause : Json} {isFilter : Bool}
    (h : ofEntity q field item c value = .ok (clause, isFilter)) :
    Clause.listed clause = [clause] := by
  have hrange : ∀ {field : String} {c : Comparator},
      (fun clause => (clause, false)) <$> Clause.range field value c = .ok (clause, isFilter) →
        Clause.listed clause = [clause] := by
    intro field c h
    cases hr : Clause.range field value c with
    | error e =>
        rw [hr] at h
        cases h
    | ok found =>
        rw [hr] at h
        cases h
        exact Clause.listed_range hr
  unfold ofEntity at h
  split at h
  · cases h
    rfl
  · split at h
    · exact hrange h
    · split at h
      · cases h
        rfl
      · split at h
        · cases h
          exact Clause.listed_words _ _ _
        · cases h
          rfl
        · cases h
          rfl
        · cases h
          exact listed_pattern _ _ _
        · cases h
          exact listed_pattern _ _ _
        · split at h
          · exact hrange h
          · cases h
            exact Clause.listed_words _ _ _

end Condition

/-- The query of a lookup for a clause that is no list selects what the clause selects. -/
theorem Deployment.holds_wrapped_clause {a : Json} (ha : Clause.listed a = [a]) (constantScore : Bool)
    (M : Matching) (doc : Indexed) :
    Clause.holds M doc (wrapped a constantScore) = Clause.holds M doc a := by
  have hcompound : Clause.compoundAt "must" a = Clause.compound .must [a] := by
    unfold Clause.compoundAt
    rw [ha]
    rfl
  unfold wrapped
  cases constantScore <;> simp [Clause.holds_constantScore, hcompound]

theorem Deployment.holds_wrapped {a b : Json} (h : Clause.Interchangeable a b) (constantScore : Bool)
    (M : Matching) (doc : Indexed) :
    Clause.holds M doc (wrapped a constantScore) = Clause.holds M doc (wrapped b constantScore) := by
  rcases h with rfl | ⟨ha, hb, h⟩
  · rfl
  · rw [holds_wrapped_clause ha, holds_wrapped_clause hb, h]

/-! ## Worlds that differ in the record of requests -/

namespace Compiling

/-- Two worlds differ in nothing but the record of requests. -/
def unrecordedTie (σ : Type) : Tie σ where
  base s s' := s.1.unrecorded = s'.1.unrecorded
  fine _ := True

variable {d : Deployment σ} {isNoted : Bool} {path path' : List Nat}

theorem outcome_lookUp (x : Action σ Resolved) (s : World σ × Progress) :
    ((lookUp x).outcome s).1 = ((Resolved.clause <$> x).outcome s.1).1 ∧
      ((lookUp x).outcome s).2.1 = ((Resolved.clause <$> x).outcome s.1).2 := by
  rw [outcome_map]
  rcases h : x.outcome s.1 with ⟨e | r, w⟩
  · rw [outcome_lookUp_of_error h]
    exact ⟨rfl, rfl⟩
  · rw [outcome_lookUp_of_ok h]
    exact ⟨rfl, rfl⟩

/-- Lookups that come to the same clause. -/
theorem coincide_lookUp {x y : Action σ Resolved}
    (h : SameUpTo World.unrecorded (Resolved.clause <$> x) (Resolved.clause <$> y))
    {s s' : World σ × Progress} (hs : s.1.unrecorded = s'.1.unrecorded) :
    Coincide (fun a b => a = b ∧
        ((lookUp x).outcome s).2.1.unrecorded = ((lookUp y).outcome s').2.1.unrecorded)
      ((lookUp x).outcome s).1 ((lookUp y).outcome s').1 := by
  obtain ⟨hanswer, hworld⟩ := h s.1 s'.1 hs
  obtain ⟨hx, hxw⟩ := outcome_lookUp x s
  obtain ⟨hy, hyw⟩ := outcome_lookUp y s'
  rw [hx, hy, hxw, hyw, hanswer, hworld]
  cases ((Resolved.clause <$> y).outcome s'.1).1 with
  | ok a => exact ⟨rfl, rfl⟩
  | error e => trivial

theorem isKept_unrecordedTie (d : Deployment σ) : (unrecordedTie σ).IsKept d where
  catalog h := by
    have hcatalog := congrArg World.catalog h
    exact hcatalog
  setCatalog h c _ := by
    have hworld := congrArg (fun w : World σ => { w with catalog := c }) h
    exact hworld
  fine_setCatalog _ _ := trivial
  call call _ _ hs _ _ := coincide_lookUp (call.sameUpTo_run.map _) hs
  fine_call _ _ _ := trivial

/-- Lookups that come to the same clause agree. -/
theorem agree_lookUp {x y : Action σ Resolved}
    (h : SameUpTo World.unrecorded (Resolved.clause <$> x) (Resolved.clause <$> y)) :
    Agree (unrecordedTie σ) isNoted path path' Eq (lookUp x) (lookUp y) :=
  Agree.lookUp (fun _ _ => trivial) (fun _ _ => trivial) fun _ _ hs _ _ => coincide_lookUp h hs

end Compiling

/-! ## A node as a member and on its own -/

namespace Deployment

open Compiling

variable {d : Deployment σ} {path path' : List Nat}

/-- The lookup of a concept looks at what its clause selects and not at how it is worded. -/
theorem sameUpTo_lookupConcept (h : d.client.SearchesAlike) (c : Entity) (number : Json)
    (inner : Description) {a b : Json} (hab : Clause.Interchangeable a b) :
    SameUpTo World.unrecorded (Resolved.clause <$> d.lookupConcept c number inner a)
      (Resolved.clause <$> d.lookupConcept c number inner b) := by
  let l (params : Json) := d.conceptLookup number inner.fingerprint params
  have hresolve : SameUpTo World.unrecorded ((l a).resolve d) ((l b).resolve d) :=
    (l a).sameUpTo_resolve (l b).body fun s =>
      h _ [("source", .bool false)] [("size", .int d.settings.subquery.size)] _ _ s
        (holds_wrapped hab _)
  unfold lookupConcept resolved
  simp only [map_bind, map_pure]
  exact (SameUpTo.ofExcept _).bind fun _ => hresolve.bind fun _ => SameUpTo.pure _

theorem agree_conceptClause_of_interchangeable
    (h : d.settings.query.conceptLookup = true → d.client.SearchesAlike) (c : Entity)
    (inner : Description) {a b : Option Json} (hab : Option.Rel Clause.Interchangeable a b) :
    Agree (unrecordedTie σ) d.settings.query.negatedExists path path'
      (Option.Rel Clause.Interchangeable) (d.conceptClause c inner a) (d.conceptClause c inner b) := by
  cases hab with
  | none => exact Agree.pure .none
  | some hab =>
      unfold conceptClause
      dsimp only
      split
      · exact Agree.pure (.some hab)
      · rename_i hlookup
        have halike := h (by simpa using hlookup)
        exact (Agree.onCatalog (isKept_unrecordedTie d) (OnCatalog.numberOf _)).bind fun _ =>
          (agree_lookUp (sameUpTo_lookupConcept halike c _ inner hab)).bind fun _ =>
            Agree.pure (.some (.refl _))

theorem interchangeable_placed (negated isFilter : Bool) {clause : Json}
    (h : Clause.listed clause = [clause]) : Clause.Interchangeable
      (placed false negated isFilter clause) (placed true negated isFilter clause) := by
  cases negated with
  | true => exact .refl _
  | false =>
      refine .inr ⟨rfl, h, fun M doc => ?_⟩
      rw [holds_placed, holds_placed]

theorem agree_entityClause_root (item : Item) (comparator : Comparator)
    (property : Option Property) : Agree (unrecordedTie σ) d.settings.query.negatedExists path path'
      Clause.Interchangeable (d.entityClause false item comparator property)
      (d.entityClause true item comparator property) := by
  have hT := isKept_unrecordedTie d
  refine Agree.bind (Agree.onCatalog hT ?_) fun site =>
    (Agree.onCatalog hT (onCatalog_siteValue _ _ _)).bind fun found => ?_
  · split
    · exact OnCatalog.pure _
    · exact onCatalog_namedSite _ _
  · dsimp only
    split
    · exact (Agree.ofExcept _).bind fun _ => (Agree.report _).bind fun _ => Agree.pure (.refl _)
    · refine (Agree.ofExcept_of _).bind_of (fun _ => Tame.pure _) (fun _ => Tame.pure _) ?_
      rintro ⟨clause, isFilter⟩ _ ⟨rfl, hclause⟩
      have hlisted := Condition.listed_ofEntity hclause
      refine Agree.pure (interchangeable_placed _ _ ?_)
      split
      · exact Clause.listed_overHierarchy hlisted _ _
      · exact hlisted

/-- The clauses on several categories, before they are joined. -/
def categoryClauses (d : Deployment σ) (categories : List Entity) (depth : Option Int) :
    Action σ (List Json) := do
  let field := Field.inGroup (Field.group (← numberOf (.property Property.instanceOf))) Field.numbers
  let numbered ← categories.mapM fun c => do return (← numberOf (.entity c), c)
  (numbered.mergeSort fun a b => a.1 ≤ b.1).mapM (d.oneCategory field depth)

theorem categoryClause_eq (isMember : Bool) (categories : List Entity) (depth : Option Int)
    (negated : Bool) : d.categoryClause isMember categories depth negated = (do
      let clauses ← d.categoryClauses categories depth
      let clause :=
        Clause.compound (if isMember && categories.length ≤ 1 then .must else .should) clauses
      return if negated then Clause.compound .mustNot [clause] else clause) := by
  unfold categoryClause categoryClauses
  simp only [bind_assoc]

theorem onCatalog_categoryClauses (categories : List Entity) (depth : Option Int) :
    OnCatalog (d.categoryClauses categories depth) := by
  refine (OnCatalog.numberOf _).bind fun _ => OnCatalog.bind (OnCatalog.mapM _ fun _ =>
    (OnCatalog.numberOf _).bind fun _ => OnCatalog.pure _) fun _ => ?_
  exact OnCatalog.mapM _ fun _ => (onCatalog_below _ _).bind fun _ => OnCatalog.pure _

/-- There is one clause for each category. -/
theorem length_categoryClauses {categories : List Entity} {depth : Option Int} {w : World σ}
    {clauses : List Json} (h : ((d.categoryClauses categories depth).outcome w).1 = .ok clauses) :
    clauses.length = categories.length := by
  unfold categoryClauses at h
  obtain ⟨_, _, -, h⟩ := exists_of_bind_ok (Prod.ext h rfl)
  obtain ⟨numbered, _, hnumbered, h⟩ := exists_of_bind_ok h
  rw [length_of_mapM h, List.length_mergeSort, length_of_mapM hnumbered]

theorem agree_categoryClause_root (categories : List Entity) (depth : Option Int) (negated : Bool) :
    Agree (unrecordedTie σ) d.settings.query.negatedExists path path' Clause.Interchangeable
      (Compiling.act (d.categoryClause false categories depth negated))
      (Compiling.act (d.categoryClause true categories depth negated)) := by
  rw [categoryClause_eq, categoryClause_eq, act_bind, act_bind]
  refine (Agree.onCatalog_of (isKept_unrecordedTie d) (onCatalog_categoryClauses _ _)
    fun _ _ => length_categoryClauses).bind_of (fun _ => Tame.pure _) (fun _ => Tame.pure _) ?_
  rintro clauses _ ⟨rfl, hlength⟩
  refine Agree.pure ?_
  have hholds : ∀ M doc, Clause.holds M doc (Clause.compound .should clauses) = Clause.holds M doc
      (Clause.compound (if categories.length ≤ 1 then .must else .should) clauses) := by
    intro M doc
    rw [← hlength]
    rcases clauses with _ | ⟨clause, _ | ⟨other, rest⟩⟩ <;> simp
  cases negated with
  | false => exact Clause.Interchangeable.compound _ _ _ _ (by simpa using hholds)
  | true =>
      refine Clause.Interchangeable.compound _ _ _ _ fun M doc => ?_
      simp [hholds]

/-- A concept is expanded to clauses that select the same, whether it is a member or not. -/
abbrev ExpandsLoosely (d : Deployment σ) (expand : Expansion σ) : Prop :=
  ∀ path path' (c : Entity), Agree (unrecordedTie σ) d.settings.query.negatedExists path path'
    (Option.Rel Clause.Interchangeable) (expand false path c) (expand true path' c)

/-- Only the outermost node makes a difference: its members are members either way. -/
theorem agree_root_of {expand : Expansion σ} (h : ExpandsAlong (unrecordedTie σ) d expand)
    (hroot : ExpandsLoosely d expand) (path path' : List Nat) (node : Description) :
    Agree (unrecordedTie σ) d.settings.query.negatedExists path path'
      (Option.Rel Clause.Interchangeable) (d.compileNode expand false path node)
      (d.compileNode expand true path' node) := by
  have hrefl : ∀ a : Option Json, Option.Rel Clause.Interchangeable a a := fun a => by
    cases a with
    | none => exact .none
    | some a => exact .some (.refl a)
  have hsame : d.compileNode expand false path' node = d.compileNode expand true path' node →
      Agree (unrecordedTie σ) d.settings.query.negatedExists path path'
        (Option.Rel Clause.Interchangeable) (d.compileNode expand false path node)
        (d.compileNode expand true path' node) := fun heq => by
    rw [← heq]
    exact (agree_node (isKept_unrecordedTie d) h false path path' node).mono fun a _ hab =>
      hab ▸ hrefl a
  cases node with
  | conjunction ds => exact hsame (by rw [compileNode, compileNode])
  | disjunction ds => exact hsame (by rw [compileNode, compileNode])
  | someProperty p inner depth => exact hsame (by rw [compileNode, compileNode])
  | thing negated => exact hsame (by rw [compileNode, compileNode])
  | category categories depth negated =>
      rw [compileNode, compileNode]
      refine (agree_visit _).bind fun _ => (agree_categoryClause_root _ _ _).bind_of
        (fun _ => Tame.pure _) (fun _ => Tame.pure _) fun _ _ hab => ?_
      exact Agree.pure (.some hab)
  | concept c =>
      rw [compileNode, compileNode]
      exact (agree_visit _).bind fun _ => hroot path path' c
  | space n =>
      rw [compileNode, compileNode]
      exact (agree_visit _).bind fun _ => Agree.pure (.some (interchangeable_placed _ _ rfl))
  | value item comparator property =>
      rw [compileNode, compileNode]
      refine (agree_visit _).bind fun _ => (agree_entityClause_root _ _ _).bind_of
        (fun _ => Tame.pure _) (fun _ => Tame.pure _) fun _ _ hab => ?_
      exact Agree.pure (.some hab)

/-- By induction on how many expansions may lie within each other: a concept hands on the difference
that its stored query makes. -/
theorem expandsLoosely_expandConcept
    (h : d.settings.query.conceptLookup = true → d.client.SearchesAlike) (n : Nat) :
    ExpandsLoosely d (d.expandConcept n) := by
  have hT := isKept_unrecordedTie d
  induction n with
  | zero => exact fun _ _ _ => Agree.pure (.some (.refl _))
  | succ n ih =>
      intro path path' c
      have hnothing : ∀ isNoted path path', Agree (unrecordedTie σ) isNoted path path'
          (Option.Rel Clause.Interchangeable) (pure (some Clause.nothing) : Compiling σ _)
          (pure (some Clause.nothing)) := fun _ _ _ => Agree.pure (.some (.refl _))
      unfold expandConcept compileConcept
      refine (Agree.onCatalog hT OnCatalog.catalog).bind fun catalog => ?_
      split
      · exact Agree.pure .none
      · exact Agree.pure .none
      · split
        · exact (Agree.ofExcept _).bind fun _ => (Agree.report _).bind fun _ => hnothing _ _ _
        · refine Agree.progress_bind fun p p' hp => ?_
          rw [hp]
          split
          · exact (Agree.ofExcept _).bind fun _ => (Agree.report _).bind fun _ => hnothing _ _ _
          · have hinner := agree_root_of (agree_expandConcept hT n) ih (path ++ [0]) (path' ++ [0])
            refine (hinner _).below.expandingOf.bind_of (fun clause => ?_) (fun clause => ?_)
              fun _ _ => agree_conceptClause_of_interchangeable h _ _
            · exact (@agree_conceptClause _ _ _ path path hT _ _ _).left
            · exact (@agree_conceptClause _ _ _ path' path' hT _ _ _).left

/-- A node on its own and the same node as a member come to clauses that select the same. -/
theorem agree_root (h : d.settings.query.conceptLookup = true → d.client.SearchesAlike) (n : Nat)
    (path path' : List Nat) (node : Description) :
    Agree (unrecordedTie σ) d.settings.query.negatedExists path path'
      (Option.Rel Clause.Interchangeable) (d.compileNode (d.expandConcept n) false path node)
      (d.compileNode (d.expandConcept n) true path' node) :=
  agree_root_of (agree_expandConcept (isKept_unrecordedTie d) n)
    (expandsLoosely_expandConcept h n) path path' node

end Deployment

end FactIndex
