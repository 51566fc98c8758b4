import FactIndex.Proofs.Compile.Clauses
import FactIndex.Proofs.Compile.Cycle

/-!
# Descriptions without a constraint

A description may put no constraint on entities at all: then it is compiled to no clause, which selects
every document. Such are the wildcard, a compound whose members are all of this kind, and a concept without
a stored query or with one of this kind. A condition on a property is dropped together with what it says
about the values, except where it says itself that there is a value: it has no clause exactly if its values
are described by a compound without members that put a constraint on them, or by a concept without one,
possibly at the end of a chain of properties.

## Main definitions

* `Description.IsFree`, `Description.LeavesFree`: no constraint on entities, or on those with a value that
  is described so.
* `Compiling.AnswersIn`: a condition on what is answered in the middle of a compilation.
* `Deployment.compile_someProperty_isMissing_iff`: when the condition on a property disappears.
-/

namespace FactIndex

open FactIndex.Effect Concepts

variable {σ α β : Type}

namespace Description

mutual

/-- A description puts no constraint on entities while some concepts are being expanded. -/
inductive IsFree (t : Table String String) : List String → Description → Prop
  | conjunction {stack : List String} {ds : List Description} (h : ∀ m ∈ ds, IsFree t stack m) :
      IsFree t stack (.conjunction ds)
  | disjunction {stack : List String} {ds : List Description} (h : ∀ m ∈ ds, IsFree t stack m) :
      IsFree t stack (.disjunction ds)
  | unstored {stack : List String} {c : Entity} (h : t.get? c.hash = none ∨ t.get? c.hash = some "") :
      IsFree t stack (.concept c)
  | stored {stack : List String} {c : Entity} {inner : Description}
      (hdef : definition? t c.hash = some inner) (hnew : c.hash ∉ stack)
      (hself : inner.refersTo c.hash = false) (h : IsFree t (stack ++ [c.hash]) inner) :
      IsFree t stack (.concept c)
  | someProperty {stack : List String} {p : Property} {inner : Description} {depth : Option Int}
      (h : LeavesFree t stack inner) : IsFree t stack (.someProperty p inner depth)
  | thing {stack : List String} : IsFree t stack (.thing false)

/-- A condition on a property puts no constraint on entities if its values are described so. -/
inductive LeavesFree (t : Table String String) : List String → Description → Prop
  | conjunction {stack : List String} {ds : List Description} (h : ∀ m ∈ ds, IsFree t stack m) :
      LeavesFree t stack (.conjunction ds)
  | disjunction {stack : List String} {ds : List Description} (h : ∀ m ∈ ds, LeavesFree t stack m) :
      LeavesFree t stack (.disjunction ds)
  | concept {stack : List String} {c : Entity} (h : IsFree t stack (.concept c)) :
      LeavesFree t stack (.concept c)
  | someProperty {stack : List String} {p : Property} {inner : Description} {depth : Option Int}
      (h : LeavesFree t stack inner) : LeavesFree t stack (.someProperty p inner depth)

end

section

variable {t : Table String String} {stack : List String} {ds : List Description} {c : Entity}
  {p : Property} {inner : Description} {depth : Option Int}

theorem isFree_conjunction_iff : IsFree t stack (.conjunction ds) ↔ ∀ m ∈ ds, IsFree t stack m :=
  ⟨fun | .conjunction h => h, .conjunction⟩

theorem isFree_disjunction_iff : IsFree t stack (.disjunction ds) ↔ ∀ m ∈ ds, IsFree t stack m :=
  ⟨fun | .disjunction h => h, .disjunction⟩

theorem isFree_someProperty_iff :
    IsFree t stack (.someProperty p inner depth) ↔ LeavesFree t stack inner :=
  ⟨fun | .someProperty h => h, .someProperty⟩

theorem leavesFree_conjunction_iff :
    LeavesFree t stack (.conjunction ds) ↔ ∀ m ∈ ds, IsFree t stack m :=
  ⟨fun | .conjunction h => h, .conjunction⟩

theorem leavesFree_disjunction_iff :
    LeavesFree t stack (.disjunction ds) ↔ ∀ m ∈ ds, LeavesFree t stack m :=
  ⟨fun | .disjunction h => h, .disjunction⟩

theorem leavesFree_concept_iff : LeavesFree t stack (.concept c) ↔ IsFree t stack (.concept c) :=
  ⟨fun | .concept h => h, .concept⟩

theorem leavesFree_someProperty_iff :
    LeavesFree t stack (.someProperty p inner depth) ↔ LeavesFree t stack inner :=
  ⟨fun | .someProperty h => h, .someProperty⟩

/-- A concept whose stored query can be read is as free as that, unless it refers to itself. -/
theorem isFree_concept_iff (hdef : definition? t c.hash = some inner) :
    IsFree t stack (.concept c) ↔
      c.hash ∉ stack ∧ inner.refersTo c.hash = false ∧ IsFree t (stack ++ [c.hash]) inner := by
  constructor
  · rintro (_ | _ | hnone | ⟨hdef', hnew, hself, h⟩)
    · rcases hnone with hget | hget <;> simp [definition?, hget] at hdef
    · cases hdef.symm.trans hdef'
      exact ⟨hnew, hself, h⟩
  · rintro ⟨hnew, hself, h⟩
    exact .stored hdef hnew hself h

/-- A concept whose stored query cannot be read is not free. -/
theorem not_isFree_concept {stored : String} (hget : t.get? c.hash = some stored) (hne : stored ≠ "")
    (hdef : definition? t c.hash = none) : ¬ IsFree t stack (.concept c) := by
  rintro (_ | _ | hnone | ⟨hdef', -⟩)
  · rw [hget] at hnone
    simp [hne] at hnone
  · rw [hdef] at hdef'
    cases hdef'

end

end Description

/-! ## Answers in the middle of a compilation -/

namespace Compiling

/-- The stored queries, and the concepts that are being expanded. -/
def scope (s : World σ × Progress) : Table String String × List String :=
  (s.1.catalog.concepts, s.2.expanding)

/-- Within a scope a compilation answers what satisfies a condition, if it answers. It leaves the scope as
it is in any case. -/
def AnswersIn (t : Table String String) (stack : List String) (Q : α → Prop) (x : Compiling σ α) : Prop :=
  ∀ s, scope s = (t, stack) → x.Meets s fun r s' => scope s' = (t, stack) ∧ ∀ a, r = .ok a → Q a

theorem leaves_scope {x : Compiling σ α} (h : Leaves trace x) : Leaves scope x := by
  intro s
  have hs := h s
  simp only [trace, Prod.mk.injEq] at hs
  exact Prod.ext hs.1 hs.2.1

namespace AnswersIn

variable {t : Table String String} {stack : List String} {P : α → Prop} {Q : β → Prop}

theorem of_leaves {x : Compiling σ α} (hx : Leaves scope x)
    (h : ∀ s s' a, x.outcome s = (.ok a, s') → P a) : AnswersIn t stack P x :=
  fun s hs => ⟨(hx s).trans hs, fun a ha => h s _ a (Prod.ext ha rfl)⟩

theorem pure {a : α} (h : P a) : AnswersIn t stack P (Pure.pure a : Compiling σ α) :=
  fun _ hs => ⟨hs, fun b hb => by cases hb; exact h⟩

theorem bind {x : Compiling σ α} {f : α → Compiling σ β} (hx : AnswersIn t stack P x)
    (hf : ∀ a, P a → AnswersIn t stack Q (f a)) : AnswersIn t stack Q (x >>= f) := by
  intro s hs
  refine (hx s hs).bind (fun a s' h => hf a (h.2 a rfl) s' h.1) fun e s' h => ?_
  exact ⟨h.1, nofun⟩

/-- A part that leaves the scope as it is and whose answer is of no consequence. -/
theorem leaf_bind {x : Compiling σ α} {f : α → Compiling σ β} (hx : Leaves trace x)
    (hf : ∀ a, AnswersIn t stack Q (f a)) : AnswersIn t stack Q (x >>= f) :=
  (of_leaves (P := fun _ => True) (leaves_scope hx) fun _ _ _ _ => trivial).bind fun a _ => hf a

/-- What follows on a look into the catalog may rely on the stored queries. -/
theorem catalog_bind {f : Catalog → Compiling σ β}
    (h : ∀ c : Catalog, c.concepts = t → AnswersIn t stack Q (f c)) :
    AnswersIn t stack Q (act catalog >>= f) := by
  intro s hs
  have hcatalog : (act (catalog : Action σ Catalog)).outcome s = (.ok s.1.catalog, s) := rfl
  exact Meets.bind_of_ok hcatalog (h s.1.catalog (congrArg Prod.fst hs) s hs)

/-- What follows on a look at the progress may rely on the concepts that are being expanded. -/
theorem progress_bind {f : Progress → Compiling σ β}
    (h : ∀ p : Progress, p.expanding = stack → AnswersIn t stack Q (f p)) :
    AnswersIn t stack Q (progress >>= f) := by
  intro s hs
  have hprogress : (progress : Compiling σ Progress).outcome s = (.ok s.2, s) := rfl
  exact Meets.bind_of_ok hprogress (h s.2 (congrArg Prod.snd hs) s hs)

/-- A concept is put on the stack while it is being expanded, and taken off again in any case. -/
theorem expandingOf {hash : String} {x : Compiling σ α} (h : AnswersIn t (stack ++ [hash]) P x) :
    AnswersIn t stack P (Compiling.expandingOf hash x) := by
  rintro ⟨w, p⟩ hs
  obtain ⟨hw, hp⟩ : w.catalog.concepts = t ∧ p.expanding = stack := Prod.mk.inj hs
  have hpushed : scope (w, { p with expanding := p.expanding ++ [hash] }) = (t, stack ++ [hash]) := by
    rw [← hw, ← hp]
    rfl
  obtain ⟨hscope, hanswer⟩ := h _ hpushed
  obtain ⟨hconcepts, hexpanding⟩ := Prod.mk.inj hscope
  unfold Meets
  rw [outcome_expandingOf]
  refine ⟨Prod.ext hconcepts ?_, hanswer⟩
  exact (congrArg List.dropLast hexpanding).trans List.dropLast_concat

end AnswersIn

end Compiling

namespace Deployment

open Compiling Clause Description

/-! ## Clauses that are missing -/

/-- There is no clause exactly under a condition, and a clause that is there is not an empty query. -/
structure IsMissing (free : Prop) (clause : Option Json) : Prop where
  none_iff : clause = none ↔ free
  ne_empty : ∀ query ∈ clause, query ≠ .obj []

namespace IsMissing

variable {free free' : Prop} {clause : Option Json}

theorem iff (h : IsMissing free clause) (hfree : free ↔ free') : IsMissing free' clause := by
  rwa [← propext hfree]

theorem none (h : free) : IsMissing free none := ⟨⟨fun _ => h, fun _ => rfl⟩, nofun⟩

theorem some {query : Json} (hne : query ≠ .obj []) (h : ¬ free) : IsMissing free (some query) := by
  refine ⟨⟨nofun, fun hfree => absurd hfree h⟩, ?_⟩
  rintro _ ⟨⟩
  exact hne

/-- A missing clause and an empty query are the same to a search. -/
theorem empty_iff (h : IsMissing free clause) : clause.getD (.obj []) = .obj [] ↔ free := by
  rw [← h.none_iff]
  cases clause with
  | none => simp
  | some query => simpa using h.ne_empty query rfl

/-- What is made of a clause, and only if there is one, is missing where that is. -/
theorem of_isSome {other : Option Json} (h : IsMissing free clause)
    (hsome : other.isSome = clause.isSome) (hne : ∀ query ∈ other, query ≠ .obj []) :
    IsMissing free other := by
  refine ⟨?_, hne⟩
  rw [← h.none_iff, ← Option.not_isSome_iff_eq_none, ← Option.not_isSome_iff_eq_none, hsome]

end IsMissing

variable {t : Table String String} {stack : List String} (d : Deployment σ)

theorem compound_ne_empty (occur : Occur) (clauses : List Json) : compound occur clauses ≠ .obj [] := by
  simp [compound, compoundAt, Json.single]

theorem isMissing_joined (occur : Occur) (clauses : List Json) :
    IsMissing (clauses = []) (joined occur clauses) := by
  unfold joined
  cases clauses with
  | nil => exact .none rfl
  | cons c cs => exact .some (compound_ne_empty _ _) (List.cons_ne_nil _ _)

theorem isMissing_disjoined {clauses : List (List Nat × Json)} {s s' : World σ × Progress}
    {clause : Option Json}
    (h : (disjoined clauses : Compiling σ (Option Json)).outcome s = (.ok clause, s')) :
    IsMissing (clauses = []) clause := by
  have hjoined := (isMissing_joined .should (clauses.map (·.2))).iff List.map_eq_nil_iff
  unfold disjoined at h
  cases hquery : joined .should (clauses.map (·.2)) with
  | none =>
      rw [hquery] at h hjoined
      cases h
      exact hjoined
  | some query =>
      rw [hquery] at h hjoined
      obtain ⟨p, u, -, h⟩ := exists_of_bind_ok h
      cases h
      refine hjoined.of_isSome rfl ?_
      rintro _ ⟨⟩
      split
      · exact hjoined.ne_empty query rfl
      · exact compound_ne_empty _ _

/-- A lookup amounts to a query that is not empty. -/
theorem ne_empty_of_lookUp {x : Action σ Resolved}
    (hx : ∀ w w' r, x.outcome w = (.ok r, w') → IsQuery r.clause) {s s' : World σ × Progress}
    {clause : Json} (h : (lookUp x).outcome s = (.ok clause, s')) : clause ≠ .obj [] := by
  rcases hr : x.outcome s.1 with ⟨e | r, w⟩
  · rw [outcome_lookUp_of_error hr] at h
    cases h
  · rw [outcome_lookUp_of_ok hr] at h
    cases h
    exact (hx _ _ _ hr).ne_empty

theorem isMissing_objectClause {p : Property} {group text : String} {clauses : List Json}
    {s s' : World σ × Progress} {clause : Option Json}
    (h : (d.objectClause p group text clauses).outcome s = (.ok clause, s')) :
    IsMissing (clauses = []) clause := by
  unfold objectClause at h
  split at h
  · rename_i hnil
    cases h
    exact .none (by simpa using hnil)
  · rename_i hcons
    have hsome : ∀ query, IsMissing (clauses = []) (some (compound .must [compound .must [query]])) :=
      fun _ => .some (compound_ne_empty _ _) (by simpa using hcons)
    obtain ⟨found, u, -, h⟩ := exists_of_bind_ok h
    dsimp only at h
    split at h
    · obtain ⟨objects, v, -, h⟩ := exists_of_bind_ok h
      obtain ⟨query, v', -, h⟩ := exists_of_bind_ok h
      cases h
      exact hsome _
    · cases h
      exact hsome _

theorem isMissing_chainClause {free : Prop} {p : Property} {field : String} {rest : Description}
    {given clause : Option Json} (hgiven : IsMissing free given) {s s' : World σ × Progress}
    (h : (d.chainClause p field rest given).outcome s = (.ok clause, s')) : IsMissing free clause := by
  cases given with
  | none =>
      cases h
      exact hgiven
  | some query =>
      unfold chainClause at h
      dsimp only at h
      split at h
      · cases h
        exact hgiven
      · obtain ⟨text, u, -, h⟩ := exists_of_bind_ok h
        obtain ⟨objects, v, -, h⟩ := exists_of_bind_ok h
        obtain ⟨found, v', hfound, h⟩ := exists_of_bind_ok h
        cases h
        refine hgiven.of_isSome rfl ?_
        rintro _ ⟨⟩
        exact ne_empty_of_lookUp (fun _ _ _ => d.isQuery_of_lookupInverse) hfound

theorem isMissing_linked {free : Prop} {chain : Option String} {p : Property} {whole : Description}
    {given clause : Option Json} (hgiven : IsMissing free given) {s s' : World σ × Progress}
    (h : (d.linked chain p whole given).outcome s = (.ok clause, s')) : IsMissing free clause := by
  cases given with
  | none =>
      cases h
      exact hgiven
  | some query =>
      unfold linked at h
      cases chain with
      | none =>
          cases h
          exact hgiven
      | some field =>
          obtain ⟨text, u, -, h⟩ := exists_of_bind_ok h
          obtain ⟨found, v, hfound, h⟩ := exists_of_bind_ok h
          cases h
          refine hgiven.of_isSome rfl ?_
          rintro _ ⟨⟩
          exact ne_empty_of_lookUp (fun _ _ _ => d.isQuery_of_resolved) hfound

theorem isMissing_conceptClause {free : Prop} {c : Entity} {inner : Description}
    {given clause : Option Json} (hgiven : IsMissing free given) {s s' : World σ × Progress}
    (h : (d.conceptClause c inner given).outcome s = (.ok clause, s')) : IsMissing free clause := by
  cases given with
  | none =>
      cases h
      exact hgiven
  | some query =>
      unfold conceptClause at h
      dsimp only at h
      split at h
      · cases h
        exact hgiven
      · obtain ⟨number, u, -, h⟩ := exists_of_bind_ok h
        obtain ⟨found, v, hfound, h⟩ := exists_of_bind_ok h
        cases h
        refine hgiven.of_isSome rfl ?_
        rintro _ ⟨⟩
        exact ne_empty_of_lookUp (fun _ _ _ => d.isQuery_of_lookupConcept) hfound

/-! ## The traversal -/

/-- What is compiled on its own is a clause that is not empty. -/
theorem answersIn_some {free : Prop} {x : Compiling σ Json} (hx : Leaves Compiling.trace x) (hfree : ¬ free)
    (h : ∀ s s' clause, x.outcome s = (.ok clause, s') → clause ≠ .obj []) :
    AnswersIn t stack (IsMissing free) (do return some (← x)) :=
  (AnswersIn.of_leaves (leaves_scope hx) h).bind fun _ hclause => .pure (.some hclause hfree)

theorem categoryClause_ne_empty {isMember negated : Bool} {categories : List Entity}
    {depth : Option Int} {w w' : World σ} {clause : Json}
    (h : (d.categoryClause isMember categories depth negated).outcome w = (.ok clause, w')) :
    clause ≠ .obj [] := by
  unfold categoryClause at h
  obtain ⟨number, u, -, h⟩ := exists_of_bind_ok h
  obtain ⟨numbered, v, -, h⟩ := exists_of_bind_ok h
  obtain ⟨clauses, v', -, h⟩ := exists_of_bind_ok h
  cases negated <;> cases h <;> exact compound_ne_empty _ _

theorem negatedClause_ne_empty {path : List Nat} {field : String} {condition clause : Json}
    {s s' : World σ × Progress}
    (h : (d.negatedClause path field condition).outcome s = (.ok clause, s')) : clause ≠ .obj [] := by
  unfold negatedClause at h
  dsimp only at h
  split at h
  · obtain ⟨_, u, -, h⟩ := exists_of_bind_ok h
    cases h
    exact compound_ne_empty _ _
  · cases h
    exact compound_ne_empty _ _

theorem valueClause_ne_empty {path : List Nat} {p : Property} {site : String × List Int} {item : Item}
    {comparator : Comparator} {property : Option Property} {s s' : World σ × Progress} {clause : Json}
    (h : (d.valueClause path p site item comparator property).outcome s = (.ok clause, s')) :
    clause ≠ .obj [] := by
  obtain ⟨m, u, -, h⟩ := exists_of_bind_ok h
  dsimp only at h
  split at h
  · exact d.negatedClause_ne_empty h
  · cases h
    exact compound_ne_empty _ _

theorem entityClause_ne_empty {isMember : Bool} {item : Item} {comparator : Comparator}
    {property : Option Property} {s s' : World σ × Progress} {clause : Json}
    (h : (d.entityClause isMember item comparator property).outcome s = (.ok clause, s')) :
    clause ≠ .obj [] :=
  ((d.yields_entityClause isMember item comparator property s rfl).of_outcome h).2.2 clause rfl |>.ne_empty

/-- Every concept is expanded to a clause, unless it puts no constraint on entities. -/
def ExpandsFully (t : Table String String) (stack : List String) (expand : Expansion σ) : Prop :=
  ∀ isMember path (c : Entity),
    AnswersIn t stack (IsMissing (IsFree t stack (.concept c))) (expand isMember path c)

/-- A property before another one: what lies behind it is compiled in between. -/
theorem answersIn_chained {free : Prop} {x : String → Compiling σ (Option Json)}
    (h : ∀ field, AnswersIn t stack (IsMissing free) (x field)) (chain : Option String) (p : Property)
    (depth : Option Int) (rest : Description) :
    AnswersIn t stack (IsMissing free) (do
      let site ← .act (d.propertySite p depth)
      let clause ← x (Field.inGroup site.1 Field.numbers)
      let clause ← d.chainClause p (Field.inGroup site.1 Field.numbers) rest clause
      d.linked chain p (.someProperty p rest depth) clause) :=
  AnswersIn.leaf_bind (leaves_onCatalog (d.onCatalog_propertySite _ _)) fun _ => (h _).bind
    fun _ hclause => (AnswersIn.of_leaves (leaves_scope (d.leaves_chainClause _ _ _ _))
      fun _ _ _ => d.isMissing_chainClause hclause).bind fun _ hclause =>
        AnswersIn.of_leaves (leaves_scope (d.leaves_linked _ _ _ _)) fun _ _ _ =>
          d.isMissing_linked hclause

/-- A property whose values are described by several clauses, which have to be looked up. -/
theorem answersIn_looked (chain : Option String) (p : Property) (whole : Description)
    (group text : String) (clauses : List Json) :
    AnswersIn t stack (IsMissing (clauses = []))
      (do d.linked chain p whole (← d.objectClause p group text clauses)) :=
  (AnswersIn.of_leaves (leaves_scope (d.leaves_objectClause _ _ _ _)) fun _ _ _ =>
    d.isMissing_objectClause).bind fun _ hclause =>
      AnswersIn.of_leaves (leaves_scope (d.leaves_linked _ _ _ _)) fun _ _ _ =>
        d.isMissing_linked hclause

mutual

/-- By induction on the description: it is compiled to nothing exactly if it puts no constraint on
entities. -/
theorem answersIn_node {expand : Expansion σ} (h : ExpandsFully t stack expand) (isMember : Bool)
    (path : List Nat) : (node : Description) →
    AnswersIn t stack (IsMissing (IsFree t stack node)) (d.compileNode expand isMember path node)
  | .conjunction ds => by
      refine AnswersIn.leaf_bind (d.leaves_visit _) fun _ => (answersIn_members h path 0 ds).bind
        fun clauses hclauses => .pure ((isMissing_joined _ _).iff ?_)
      rw [List.map_eq_nil_iff, hclauses, isFree_conjunction_iff]
  | .disjunction ds => by
      refine AnswersIn.leaf_bind (d.leaves_visit _) fun _ => (answersIn_members h path 0 ds).bind
        fun clauses hclauses => .of_leaves (leaves_scope (leaves_disjoined _)) fun _ _ _ hclause =>
          (isMissing_disjoined hclause).iff ?_
      rw [hclauses, isFree_disjunction_iff]
  | .category categories depth negated => by
      refine AnswersIn.leaf_bind (d.leaves_visit _) fun _ => answersIn_some
        (leaves_onCatalog (d.onCatalog_categoryClause _ _ _ _)) nofun fun s s' clause hclause => ?_
      rw [outcome_act] at hclause
      exact d.categoryClause_ne_empty (Prod.ext (Prod.mk.inj hclause).1 rfl)
  | .concept c => AnswersIn.leaf_bind (d.leaves_visit _) fun _ => h isMember path c
  | .space n => by
      refine AnswersIn.leaf_bind (d.leaves_visit _) fun _ => .pure (.some ?_ nofun)
      exact (isQuery_placed isMember false true (.leaf (isLeaf_term _ _))).ne_empty
  | .someProperty p inner depth => by
      refine AnswersIn.leaf_bind (d.leaves_visit _) fun _ => ?_
      rw [propext isFree_someProperty_iff]
      exact answersIn_property h path none p depth inner
  | .value item comparator property => by
      exact AnswersIn.leaf_bind (d.leaves_visit _) fun _ => answersIn_some
        (d.leaves_entityClause _ _ _ _) nofun fun _ _ _ => d.entityClause_ne_empty
  | .thing negated => by
      refine AnswersIn.leaf_bind (d.leaves_visit _) fun _ => .pure ?_
      cases negated with
      | false => exact .none .thing
      | true => exact .some (IsQuery.leaf isLeaf_nothing).ne_empty nofun

theorem answersIn_members {expand : Expansion σ} (h : ExpandsFully t stack expand) (path : List Nat) :
    (i : Nat) → (ds : List Description) →
    AnswersIn t stack (fun clauses => clauses = [] ↔ ∀ m ∈ ds, IsFree t stack m)
      (d.compileMembers expand path i ds)
  | _, [] => .pure (by simp)
  | i, m :: ms => by
      refine (answersIn_node h true (path ++ [i]) m).bind fun clause hclause =>
        (answersIn_members h path (i + 1) ms).bind fun rest hrest => .pure ?_
      rw [List.forall_mem_cons, ← hclause.none_iff, ← hrest]
      cases clause <;> simp

theorem answersIn_property {expand : Expansion σ} (h : ExpandsFully t stack expand) (path : List Nat)
    (chain : Option String) (p : Property) (depth : Option Int) :
    (inner : Description) → AnswersIn t stack (IsMissing (LeavesFree t stack inner))
      (d.compileProperty expand path chain p depth inner)
  | .someProperty q (.disjunction ds) qdepth => by
      refine AnswersIn.leaf_bind (leaves_onCatalog (d.onCatalog_propertySite _ _)) fun site =>
        (answersIn_alternatives h (path ++ [0]) _ q qdepth 0 ds).bind fun clauses hclauses => ?_
      rw [propext leavesFree_someProperty_iff, propext leavesFree_disjunction_iff, ← propext hclauses]
      have hjoined := isMissing_joined .should clauses
      exact (AnswersIn.of_leaves (leaves_scope (d.leaves_chainClause _ _ _ _))
        fun _ _ _ => d.isMissing_chainClause hjoined).bind fun _ hclause =>
          .of_leaves (leaves_scope (d.leaves_linked _ _ _ _)) fun _ _ _ => d.isMissing_linked hclause
  | .someProperty q (.conjunction ds) qdepth => by
      rw [propext leavesFree_someProperty_iff]
      exact d.answersIn_chained (fun field => answersIn_property h _ (some field) q qdepth
        (.conjunction ds)) chain p depth _
  | .someProperty q (.category cs cdepth negated) qdepth => by
      rw [propext leavesFree_someProperty_iff]
      exact d.answersIn_chained (fun field => answersIn_property h _ (some field) q qdepth
        (.category cs cdepth negated)) chain p depth _
  | .someProperty q (.concept c) qdepth => by
      rw [propext leavesFree_someProperty_iff]
      exact d.answersIn_chained (fun field => answersIn_property h _ (some field) q qdepth
        (.concept c)) chain p depth _
  | .someProperty q (.space n) qdepth => by
      rw [propext leavesFree_someProperty_iff]
      exact d.answersIn_chained (fun field => answersIn_property h _ (some field) q qdepth
        (.space n)) chain p depth _
  | .someProperty q (.someProperty q' inner' depth') qdepth => by
      rw [propext leavesFree_someProperty_iff]
      exact d.answersIn_chained (fun field => answersIn_property h _ (some field) q qdepth
        (.someProperty q' inner' depth')) chain p depth _
  | .someProperty q (.value item comparator property) qdepth => by
      rw [propext leavesFree_someProperty_iff]
      exact d.answersIn_chained (fun field => answersIn_property h _ (some field) q qdepth
        (.value item comparator property)) chain p depth _
  | .someProperty q (.thing negated) qdepth => by
      rw [propext leavesFree_someProperty_iff]
      exact d.answersIn_chained (fun field => answersIn_property h _ (some field) q qdepth
        (.thing negated)) chain p depth _
  | .value item comparator property => by
      refine AnswersIn.leaf_bind (leaves_onCatalog (d.onCatalog_propertySite _ _)) fun site =>
        (AnswersIn.of_leaves (leaves_scope (d.leaves_valueClause _ _ _ _ _ _))
          fun _ _ _ => d.valueClause_ne_empty).bind fun clause hclause =>
            .of_leaves (leaves_scope (d.leaves_linked _ _ _ _)) fun _ _ _ => ?_
      exact d.isMissing_linked (.some hclause nofun)
  | .thing negated => by
      refine AnswersIn.leaf_bind (leaves_onCatalog (d.onCatalog_propertySite _ _)) fun site =>
        .of_leaves (leaves_scope (d.leaves_linked _ _ _ _)) fun _ _ _ => ?_
      exact d.isMissing_linked (.some (compound_ne_empty _ _) nofun)
  | .disjunction ds => by
      refine AnswersIn.leaf_bind (leaves_onCatalog (d.onCatalog_propertySite _ _)) fun site =>
        (answersIn_alternatives h (path ++ [0]) none p depth 0 ds).bind fun clauses hclauses =>
          .of_leaves (leaves_scope (d.leaves_linked _ _ _ _)) fun _ _ _ => ?_
      have hjoined := (isMissing_joined .should clauses).iff
        (hclauses.trans leavesFree_disjunction_iff.symm)
      refine d.isMissing_linked (hjoined.of_isSome Option.isSome_map ?_)
      intro query hquery
      obtain ⟨whole, -, rfl⟩ := Option.map_eq_some_iff.mp hquery
      exact compound_ne_empty _ _
  | .conjunction ds => by
      refine AnswersIn.leaf_bind (leaves_onCatalog (d.onCatalog_propertySite _ _)) fun site =>
        AnswersIn.leaf_bind (Leaves.ofExcept _) fun text =>
          (answersIn_members h (path ++ [0]) 0 ds).bind fun clauses hclauses => ?_
      rw [propext leavesFree_conjunction_iff, ← propext hclauses, ← propext List.map_eq_nil_iff]
      exact d.answersIn_looked chain p _ _ _ _
  | .category categories categoryDepth negated => by
      refine AnswersIn.leaf_bind (leaves_onCatalog (d.onCatalog_propertySite _ _)) fun site =>
        AnswersIn.leaf_bind (Leaves.ofExcept _) fun text =>
          AnswersIn.leaf_bind (d.leaves_visit _) fun _ =>
            AnswersIn.leaf_bind (leaves_onCatalog (d.onCatalog_categoryClause _ _ _ _))
              fun clause => ?_
      have hnever : LeavesFree t stack (.category categories categoryDepth negated) ↔ [clause] = [] :=
        iff_of_false nofun (List.cons_ne_nil _ _)
      rw [propext hnever]
      exact d.answersIn_looked chain p _ _ _ _
  | .concept c => by
      refine AnswersIn.leaf_bind (leaves_onCatalog (d.onCatalog_propertySite _ _)) fun site =>
        AnswersIn.leaf_bind (Leaves.ofExcept _) fun text =>
          AnswersIn.leaf_bind (d.leaves_visit _) fun _ =>
            (h true (path ++ [0]) c).bind fun clause hclause => ?_
      rw [propext leavesFree_concept_iff, ← propext hclause.none_iff, ← propext Option.toList_eq_nil_iff]
      exact d.answersIn_looked chain p _ _ _ _
  | .space n => by
      refine AnswersIn.leaf_bind (leaves_onCatalog (d.onCatalog_propertySite _ _)) fun site =>
        AnswersIn.leaf_bind (Leaves.ofExcept _) fun text =>
          AnswersIn.leaf_bind (d.leaves_visit _) fun _ => ?_
      have hnever : LeavesFree t stack (.space n) ↔ [term "subject.namespace" (.int n)] = [] :=
        iff_of_false nofun (List.cons_ne_nil _ _)
      rw [propext hnever]
      exact d.answersIn_looked chain p _ _ _ _

theorem answersIn_alternatives {expand : Expansion σ} (h : ExpandsFully t stack expand)
    (path : List Nat) (chain : Option String) (p : Property) (depth : Option Int) :
    (i : Nat) → (ds : List Description) →
    AnswersIn t stack (fun clauses => clauses = [] ↔ ∀ m ∈ ds, LeavesFree t stack m)
      (d.compileAlternatives expand path chain p depth i ds)
  | _, [] => .pure (by simp)
  | i, m :: ms => by
      refine (answersIn_property h (path ++ [i]) chain p depth m).bind fun clause hclause =>
        (answersIn_alternatives h path chain p depth (i + 1) ms).bind fun rest hrest => .pure ?_
      rw [List.forall_mem_cons, ← hclause.none_iff, ← hrest, List.append_eq_nil_iff,
        Option.toList_eq_nil_iff]

end

/-! ## The expansion of concepts -/

/-- The expansion of a concept answers with a clause unless the compilation of its stored description does
not. -/
theorem expandsFully_compileConcept
    {compile : Bool → List Nat → Description → Compiling σ (Option Json)}
    (h : ∀ hash inner, definition? t hash = some inner → hash ∉ stack → ∀ isMember path,
      AnswersIn t (stack ++ [hash]) (IsMissing (IsFree t (stack ++ [hash]) inner))
        (compile isMember path inner)) :
    ExpandsFully t stack (d.compileConcept compile) := by
  intro isMember path c
  unfold compileConcept
  refine AnswersIn.catalog_bind fun catalog hcatalog => ?_
  have hquery : catalog.query? c = t.get? c.hash := by rw [Catalog.query?, hcatalog]
  rw [hquery]
  have hnothing : ∀ {free : Prop}, ¬ free → IsMissing free (some nothing) :=
    .some (IsQuery.leaf isLeaf_nothing).ne_empty
  cases hget : t.get? c.hash with
  | none => exact .pure (.none (.unstored (.inl hget)))
  | some stored =>
      by_cases hempty : stored = ""
      · subst hempty
        exact .pure (.none (.unstored (.inr hget)))
      · have hdef : definition? t c.hash = (Description.parse stored).toOption := by
          simp [definition?, hget]
        simp only
        cases hparse : Description.parse stored with
        | error e =>
            have hnone : definition? t c.hash = none := by rw [hdef, hparse]; rfl
            exact AnswersIn.leaf_bind (Leaves.ofExcept _) fun _ =>
              AnswersIn.leaf_bind (leaves_report (by rfl)) fun _ =>
                .pure (hnothing (not_isFree_concept hget hempty hnone))
        | ok inner =>
            have hinner : definition? t c.hash = some inner := by rw [hdef, hparse]; rfl
            refine AnswersIn.progress_bind fun p hp => ?_
            rw [hp, propext (isFree_concept_iff hinner)]
            by_cases hseen : c.hash ∈ stack ∨ inner.refersTo c.hash = true
            · have hcheck : (stack.contains c.hash || inner.refersTo c.hash) = true := by
                simpa using hseen
              rw [if_pos hcheck]
              refine AnswersIn.leaf_bind (Leaves.ofExcept _) fun text =>
                (AnswersIn.of_leaves (P := fun _ => True) (fun _ => rfl) fun _ _ _ _ => trivial).bind
                  fun _ _ => .pure (hnothing ?_)
              rintro ⟨hnew, hself, -⟩
              simp [hnew, hself] at hseen
            · have hcheck : ¬ (stack.contains c.hash || inner.refersTo c.hash) = true := by
                simpa using hseen
              rw [if_neg hcheck]
              obtain ⟨hnew, hself⟩ := not_or.mp hseen
              refine (h c.hash inner hinner hnew isMember (path ++ [0])).expandingOf.bind
                fun clause hclause => .of_leaves (leaves_scope (d.leaves_conceptClause _ _ _))
                  fun _ _ _ hanswer => (d.isMissing_conceptClause hclause hanswer).iff ?_
              simp [hnew, hself]

/-- By induction on the limit, which is not reached. -/
theorem expandsFully_expandConcept (n : Nat) (stack : List String)
    (hroom : (unexpanded t stack).card < n) : ExpandsFully t stack (d.expandConcept n) := by
  induction n generalizing stack with
  | zero => omega
  | succ n ih =>
      refine d.expandsFully_compileConcept fun hash inner hdef hnew isMember path => ?_
      have hless := card_unexpanded_lt hdef hnew
      exact d.answersIn_node (ih (stack ++ [hash]) (by omega)) isMember path inner

/-! ## When the condition on a property disappears -/

/-- Whatever the property, the settings, the hierarchies, the stored queries and the answers of the search
engine and the cache are: where the condition on a property is compiled and an answer is given, this is the
empty query exactly if the values are described so that they are left free. So it is for a description as a
whole, for a node anywhere in a description or in the stored query of a concept, and for a member of a
chain of properties, with the concepts that are being expanded there. -/
theorem compile_someProperty_isMissing_iff (d : Deployment σ) (w : World σ) (p : Property)
    (inner : Description) (depth : Option Int) :
    (∀ isMember clause progress w',
      (d.compile isMember (.someProperty p inner depth)).outcome w = (.ok (clause, progress), w') →
      (clause.getD (.obj []) = .obj [] ↔ LeavesFree w.catalog.concepts [] inner)) ∧
    ∀ n progress, (unexpanded w.catalog.concepts progress.expanding).card < n → ∀ path clause s',
      (∀ isMember, (d.compileNode (d.expandConcept n) isMember path
          (.someProperty p inner depth)).outcome (w, progress) = (.ok clause, s') →
        (clause.getD (.obj []) = .obj [] ↔ LeavesFree w.catalog.concepts progress.expanding inner)) ∧
      ∀ chain, (d.compileProperty (d.expandConcept n) path chain p depth inner).outcome (w, progress) =
          (.ok clause, s') →
        (clause.getD (.obj []) = .obj [] ↔
          LeavesFree w.catalog.concepts progress.expanding inner) := by
  have hnode : ∀ n progress, (unexpanded w.catalog.concepts progress.expanding).card < n →
      ∀ isMember path clause s', (d.compileNode (d.expandConcept n) isMember path
        (.someProperty p inner depth)).outcome (w, progress) = (.ok clause, s') →
      (clause.getD (.obj []) = .obj [] ↔ LeavesFree w.catalog.concepts progress.expanding inner) := by
    intro n progress hroom isMember path clause s' hclause
    have hanswers := d.answersIn_node (d.expandsFully_expandConcept n _ hroom) isMember path
      (.someProperty p inner depth) (w, progress) rfl
    rw [((hanswers.of_outcome hclause).2 clause rfl).empty_iff, isFree_someProperty_iff]
  refine ⟨fun isMember clause progress w' hcompile => ?_, fun n progress hroom path clause s' =>
    ⟨fun isMember => hnode n progress hroom isMember path clause s', fun chain hclause => ?_⟩⟩
  · unfold compile at hcompile
    rw [outcome_start] at hcompile
    have hroom : (unexpanded w.catalog.concepts []).card < w.catalog.concepts.length + 1 :=
      Nat.lt_succ_of_le (card_unexpanded_le [])
    have hcatalog : (Compiling.act (catalog : Action σ Catalog)).outcome (w, ({} : Progress)) =
        (.ok w.catalog, (w, {})) := rfl
    rcases hr : (d.compileTree isMember (.someProperty p inner depth)).outcome (w, {}) with ⟨e | a, s'⟩
    · rw [hr] at hcompile
      cases hcompile
    · rw [hr] at hcompile
      cases hcompile
      unfold compileTree at hr
      rw [outcome_bind_of_ok hcatalog] at hr
      exact hnode _ {} hroom isMember [] _ s' hr
  · have hanswers := d.answersIn_property (d.expandsFully_expandConcept n _ hroom) path chain p depth
      inner (w, progress) rfl
    exact ((hanswers.of_outcome hclause).2 clause rfl).empty_iff

private def quietStore : Deployment Unit :=
  { client := ⟨fun _ s => (.ok (.obj []), s)⟩, cache := {}, queue := {} }

private def age : Property := { key := "Age", valueType := .number }

private def ageWorld : World Unit :=
  { engine := (), catalog := { next := 100, numbers := [(.property "Age", 20)] } }

/-- The condition that the ages are described by a compound without members disappears, also at the end of
a chain. It is written like the one that there is an age, which does not disappear. -/
theorem compile_someProperty_isMissing_iff_age :
    (quietStore.compile false (.someProperty age (.conjunction []) none)).outcome ageWorld =
        (.ok (none, {}), ageWorld) ∧
      LeavesFree ageWorld.catalog.concepts [] (.conjunction []) ∧
      (Description.someProperty age (.conjunction []) none).queryText = .ok "[[Age::+]]" ∧
      (Description.someProperty age (.thing false) none).queryText = .ok "[[Age::+]]" ∧
      (quietStore.compile false (.someProperty age (.thing false) none)).outcome ageWorld =
        (.ok (some (compound .filter [hasField "P:20.numField"]), {}), ageWorld) ∧
      ¬ LeavesFree ageWorld.catalog.concepts [] (.thing false) ∧
      (quietStore.compileProperty (quietStore.expandConcept 1) [0] (some "P:25.wpgID") age none
        (.disjunction [])).outcome (ageWorld, {}) = (.ok none, (ageWorld, {})) ∧
      LeavesFree ageWorld.catalog.concepts [] (.disjunction []) := by
  have hmembers : (quietStore.compile false (.someProperty age (.conjunction []) none)).outcome ageWorld =
      (.ok (none, {}), ageWorld) := rfl
  have hvalue : (quietStore.compile false (.someProperty age (.thing false) none)).outcome ageWorld =
      (.ok (some (compound .filter [hasField "P:20.numField"]), {}), ageWorld) := rfl
  have hfree := (quietStore.compile_someProperty_isMissing_iff ageWorld age (.conjunction []) none).1
    false none {} ageWorld hmembers
  have hconstrained := (quietStore.compile_someProperty_isMissing_iff ageWorld age (.thing false) none).1
    false _ {} ageWorld hvalue
  have hroom : (unexpanded ageWorld.catalog.concepts []).card < 1 := by decide
  have hchain : (quietStore.compileProperty (quietStore.expandConcept 1) [0] (some "P:25.wpgID") age none
      (.disjunction [])).outcome (ageWorld, {}) = (.ok none, (ageWorld, {})) := rfl
  have hend := ((quietStore.compile_someProperty_isMissing_iff ageWorld age (.disjunction []) none).2
    1 {} hroom [0] none _).2 (some "P:25.wpgID") hchain
  exact ⟨hmembers, hfree.mp rfl, by decide +kernel, by decide +kernel, hvalue,
    fun h => compound_ne_empty _ _ (hconstrained.mpr h), hchain, hend.mp rfl⟩

end Deployment

end FactIndex
