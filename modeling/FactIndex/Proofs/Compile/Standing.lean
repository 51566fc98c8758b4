import FactIndex.Proofs.Compile.Again
import FactIndex.Proofs.Compile.Membership

/-!
# Compiling a category or an entity again

Categories, and conditions that stand on their own, rest on numbers of the catalog like conditions on a
property do. So they come to the same clause whenever they are compiled again, and to one that selects
the same if they are members of a compound at one time and on their own at another.

## Main definitions

* `Description.IsStanding`: the nodes that are compiled without regard to others.
* `Clause.IsClosed`: a clause that is no list and asks for none.
* `Deployment.standingClause`: the clause of such a node.
* `Deployment.repeatedBy_standingClause`, `Deployment.answers_standingClause`: it is the same again, and
  asks for no stored list.
* `Deployment.exists_standingClause`: as a member, a node comes to a clause that selects the same.
-/

namespace FactIndex

open FactIndex.Effect FactIndex.Calendar

variable {σ : Type}

namespace Description

/-- What is compiled without regard to other nodes. A condition may name a direct property. -/
def IsStanding : Description → Prop
  | .category _ _ _ => True
  | .space _ => True
  | .value _ _ property => ∀ p ∈ property, p.inverse = false
  | _ => False

end Description

namespace Clause

/-- A clause that is no list and asks for none. -/
structure IsClosed (clause : Json) : Prop where
  listed : Clause.listed clause = [clause]
  selfContained : IsSelfContained clause

theorem isClosed_of_isElementary {clause : Json} (h : IsElementary clause) : IsClosed clause :=
  ⟨listed_of_isElementary h, isSelfContained_of_isElementary h⟩

theorem isClosed_compound (occur : Occur) {clauses : List Json} (h : ∀ clause ∈ clauses, IsClosed clause) :
    IsClosed (compound occur clauses) :=
  ⟨rfl, isSelfContained_compound occur fun clause hclause => (h clause hclause).selfContained⟩

theorem isClosed_overHierarchy {clause : Json} (h : IsElementary clause) (n : Int) (lower : List Int) :
    IsClosed (overHierarchy clause (Field.group n) lower) :=
  ⟨listed_overHierarchy (listed_of_isElementary h) _ _, isSelfContained_overHierarchy h n lower⟩

end Clause

namespace Deployment

open Compiling

variable (d : Deployment σ)

/-- A clause keeps its kind where it is placed. -/
theorem isClosed_placed (isMember negated isFilter : Bool) {clause : Json} (h : Clause.IsClosed clause) :
    Clause.IsClosed (placed isMember negated isFilter clause) := by
  have hcompound : ∀ occur, Clause.IsClosed (Clause.compound occur [clause]) := fun occur =>
    Clause.isClosed_compound occur (by simpa using h)
  unfold placed
  split
  · exact hcompound _
  · split
    · exact h
    · exact hcompound _

theorem isClosed_memberClause (field : String) (number : Int) (lower : List Int) :
    Clause.IsClosed (memberClause field number lower) := by
  have hterm : Clause.IsClosed (Clause.term field (.int number)) :=
    Clause.isClosed_of_isElementary (Clause.isElementary_single _ (by decide))
  unfold memberClause
  dsimp only
  split
  · exact hterm
  · refine Clause.isClosed_compound _ fun clause hclause => ?_
    simp only [List.mem_cons, List.not_mem_nil, or_false] at hclause
    rcases hclause with rfl | rfl
    · exact hterm
    · exact Clause.isClosed_of_isElementary (Clause.isElementary_terms _ nofun)

/-! ## Categories -/

theorem repeatedBy_categoryClause (isMember : Bool) (categories : List Entity) (depth : Option Int)
    (negated : Bool) : RepeatedBy (act (d.categoryClause isMember categories depth negated))
      (act (d.categoryClause isMember categories depth negated)) := by
  have hnumbered : ∀ c : Entity, RepeatedBy
      (act (do return (← numberOf (.entity c), c)) : Compiling σ (Int × Entity))
      (act (do return (← numberOf (.entity c), c))) := fun c => by
    rw [act_bind]
    exact (RepeatedBy.numberOf _).bind fun _ => RepeatedBy.pure _
  have hone : ∀ field member, RepeatedBy (act (d.oneCategory field depth member))
      (act (d.oneCategory field depth member)) := fun field member => by
    unfold oneCategory
    rw [act_bind]
    exact (repeatedBy_below _ _).bind fun _ => RepeatedBy.pure _
  unfold categoryClause
  rw [act_bind]
  refine (RepeatedBy.numberOf _).bind fun n => ?_
  rw [act_bind]
  refine (RepeatedBy.act_mapM _ hnumbered).bind fun numbered => ?_
  rw [act_bind]
  exact (RepeatedBy.act_mapM _ (hone _)).bind fun _ => RepeatedBy.pure _

theorem answers_categoryClause (isMember : Bool) (categories : List Entity) (depth : Option Int)
    (negated : Bool) {fails : Prop} :
    Answers (d.categoryClause isMember categories depth negated) fails Clause.IsClosed := by
  have hone : ∀ field member, Answers (d.oneCategory field depth member) fails Clause.IsClosed :=
    fun field member => (answers_below _ _).bind fun _ _ => Answers.pure (isClosed_memberClause _ _ _)
  have hnumbered : ∀ c : Entity, Answers
      (do return (← numberOf (.entity c), c) : Action σ (Int × Entity)) fails fun _ => True :=
    fun c => (Answers.numberOf _).bind fun _ _ => Answers.pure trivial
  unfold categoryClause
  refine (Answers.numberOf _).bind fun n _ => (Answers.mapM hnumbered _).bind fun numbered _ =>
    (Answers.mapM (hone _) _).bind fun clauses hclauses => Answers.pure ?_
  have hclause := Clause.isClosed_compound
    (if isMember && categories.length ≤ 1 then .must else .should) hclauses
  split
  · exact Clause.isClosed_compound _ (by simpa using hclause)
  · exact hclause

/-! ## Conditions on entities -/

theorem repeatedBy_namedSite (condition : Description) {p : Property} (hdirect : p.inverse = false) :
    RepeatedBy (act (namedSite condition p) : Compiling σ Site) (act (namedSite condition p)) := by
  unfold namedSite
  simp only [hdirect, Bool.false_eq_true, if_false]
  rw [act_bind]
  refine (RepeatedBy.numberOf _).bind fun n => ?_
  rw [act_bind]
  exact (repeatedBy_below _ _).bind fun _ => RepeatedBy.pure _

/-- The group of a site is that of a number. -/
def Site.IsNumbered (site : Site) : Prop :=
  ∀ name lower, site.group = some (name, lower) → ∃ n, name = Field.group n

theorem answers_namedSite (condition : Description) {p : Property} (hdirect : p.inverse = false)
    {fails : Prop} :
    Answers (namedSite condition p : Action σ Site) fails Site.IsNumbered := by
  unfold namedSite
  simp only [hdirect, Bool.false_eq_true, if_false]
  refine (Answers.numberOf _).bind fun n _ => (answers_below _ _).bind fun lower _ =>
    Answers.pure ?_
  rintro name below ⟨⟩
  exact ⟨n, rfl⟩

theorem repeatedBy_siteValue (site : Site) (item : Item) (c : Comparator) :
    RepeatedBy (act (siteValue site item c) : Compiling σ (String × Json))
      (act (siteValue site item c)) := by
  unfold siteValue
  split
  · split
    · rw [act_bind]
      exact (RepeatedBy.numberOf _).bind fun _ => RepeatedBy.pure _
    · exact RepeatedBy.pure _
  · rw [act_bind, act_ofExcept]
    exact (RepeatedBy.ofExcept _).bind fun _ => RepeatedBy.pure _

theorem answers_siteValue (site : Site) (item : Item) (c : Comparator) :
    Answers (siteValue site item c : Action σ (String × Json))
      (∃ t ∈ item.times, ¬ ∃ x, TimeOf.dayNumber t = .ok x) fun found => ∀ ms, found.2 ≠ .obj ms := by
  unfold siteValue
  split
  · split
    · exact (Answers.numberOf _).bind fun _ _ => Answers.pure nofun
    · exact Answers.pure nofun
  · exact (Answers.ofExcept (fun _ hvalue => Item.searchValue_ne_obj hvalue)
      fun _ he => Item.exists_time_of_searchValue he).bind fun _ hvalue => Answers.pure hvalue

theorem repeatedBy_entityClause (isMember : Bool) (item : Item) (comparator : Comparator)
    {property : Option Property} (hdirect : ∀ p ∈ property, p.inverse = false) :
    RepeatedBy (d.entityClause isMember item comparator property)
      (d.entityClause isMember item comparator property) := by
  unfold entityClause
  refine RepeatedBy.bind ?_ fun site => (repeatedBy_siteValue _ _ _).bind fun found => ?_
  · cases property with
    | none => exact RepeatedBy.pure _
    | some p => exact repeatedBy_namedSite _ (hdirect p rfl)
  · dsimp only
    split
    · exact (RepeatedBy.ofExcept _).bind fun _ =>
        (RepeatedBy.report _).bind fun _ => RepeatedBy.pure _
    · exact (RepeatedBy.ofExcept _).bind fun _ => RepeatedBy.pure _

/-- Only for a time there may be no clause: it may be too far off to be compared, and an area without a
property is reported by its text. -/
theorem answers_entityClause (isMember : Bool) (item : Item) (comparator : Comparator)
    {property : Option Property} (hdirect : ∀ p ∈ property, p.inverse = false) :
    Answers (d.entityClause isMember item comparator property)
      (∃ t ∈ item.times, ¬ ∃ x, TimeOf.dayNumber t = .ok x) Clause.IsClosed := by
  unfold entityClause
  refine Answers.bind (show Answers _ _ Site.IsNumbered from Answers.act ?_) fun site hsite =>
    (answers_siteValue _ _ _).act.bind fun found hfound => ?_
  · cases property with
    | none => exact Answers.pure nofun
    | some p => exact answers_namedSite _ (hdirect p rfl)
  dsimp only
  split
  · rename_i a _
    refine (Answers.ofExcept (fun _ _ => trivial) fun e he => ?_).bind fun _ _ =>
      (Answers.note _).bind fun _ _ => Answers.pure (Clause.isClosed_of_isElementary
        (Clause.isElementary_terms _ nofun))
    cases he
  · rename_i group hnone
    obtain ⟨clause, isFilter, hclause, helementary⟩ :=
      Condition.isElementary_ofEntity d.settings.query found.1 _ comparator.normal hfound
    rw [hclause]
    refine Answers.pure (isClosed_placed _ _ _ ?_)
    split
    · rename_i name lower hgroup
      obtain ⟨n, rfl⟩ := hsite name lower hgroup
      exact Clause.isClosed_overHierarchy helementary n lower
    · exact Clause.isClosed_of_isElementary helementary

/-! ## Nodes that stand on their own -/

/-- The clause of a node that is compiled without regard to others. -/
def standingClause (isMember : Bool) : Description → Compiling σ Json
  | .category categories depth negated => act (d.categoryClause isMember categories depth negated)
  | .space n => return placed isMember false true (Clause.term "subject.namespace" (.int n))
  | .value item comparator property => d.entityClause isMember item comparator property
  | _ => return Clause.nothing

variable {d} {node : Description}

theorem compileNode_standing (expand : Expansion σ) (isMember : Bool) (path : List Nat)
    (h : node.IsStanding) : d.compileNode expand isMember path node =
      d.visit node >>= fun _ => some <$> d.standingClause isMember node := by
  cases node with
  | category | space | value => rw [compileNode]; rfl
  | conjunction | disjunction | concept | someProperty | thing => exact h.elim

theorem repeatedBy_standingClause (h : node.IsStanding) (isMember : Bool) :
    RepeatedBy (d.standingClause isMember node) (d.standingClause isMember node) := by
  cases node with
  | category => exact d.repeatedBy_categoryClause _ _ _ _
  | space => exact RepeatedBy.pure _
  | value => exact d.repeatedBy_entityClause _ _ _ h
  | conjunction | disjunction | concept | someProperty | thing => exact h.elim

theorem answers_standingClause (h : node.IsStanding) (isMember : Bool) :
    Answers (d.standingClause isMember node)
      (∃ t ∈ node.times, ¬ ∃ x, TimeOf.dayNumber t = .ok x) Clause.IsClosed := by
  cases node with
  | category => exact (d.answers_categoryClause _ _ _ _).act
  | space =>
      exact Answers.pure (isClosed_placed _ _ _ (Clause.isClosed_of_isElementary
        (Clause.isElementary_single _ (by decide))))
  | value => exact d.answers_entityClause _ _ _ h
  | conjunction | disjunction | concept | someProperty | thing => exact h.elim

/-- As a member of a compound, a node comes to a clause that selects the same. -/
theorem exists_standingClause (h : node.IsStanding) {isMember : Bool} {s : World σ × Progress}
    {clause : Json} (hclause : ((d.standingClause isMember node).outcome s).1 = .ok clause) :
    ∃ other, ((d.standingClause true node).outcome s).1 = .ok other ∧
      ∀ M doc, Clause.holds M doc clause = Clause.holds M doc other := by
  cases isMember with
  | true => exact ⟨clause, hclause, fun _ _ => rfl⟩
  | false =>
      have hagree : Agree (unrecordedTie σ) d.settings.query.negatedExists [] []
          Clause.Interchangeable (d.standingClause false node) (d.standingClause true node) := by
        cases node with
        | category => exact agree_categoryClause_root _ _ _
        | space => exact Agree.pure (interchangeable_placed _ _ rfl)
        | value => exact agree_entityClause_root _ _ _
        | conjunction | disjunction | concept | someProperty | thing => exact h.elim
      have hsame := hagree.coincide s s ⟨rfl, rfl, fun _ => rfl⟩ trivial trivial
      rw [hclause] at hsame
      cases hother : ((d.standingClause true node).outcome s).1 with
      | error e =>
          rw [hother] at hsame
          exact hsame.elim
      | ok other =>
          rw [hother] at hsame
          exact ⟨other, rfl, hsame.1.holds_eq⟩

end Deployment

end FactIndex
