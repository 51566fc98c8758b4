import FactIndex.Compile.Condition
import FactIndex.Proofs.Compile.Direct
import FactIndex.Proofs.Compile.Steps
import FactIndex.Proofs.Search.Matching
/-!
# Conditions that cover those on subproperties

A condition on the values of a property is made from the group of the property and from nothing else that
is its own. So the copy of the clause for a subproperty with values of the same type is the clause of the
condition on the subproperty.

A condition on a property also looks at what lies below the property. Where values are compared, or are any
values at all, whatever is selected by such a condition on a subproperty is selected by the condition on the
property, since the copy of a clause is the clause of the subproperty.

## Main definitions

* `Condition.IsCopied`: a condition whose copy for another property is the condition on that property.
* `Condition.isCopied_ofProperty`: every condition on the values of a property is of this kind.
* `Description.isCompared`: the descriptions of values of which this holds.
* `Clause.Covers`: a clause that selects whatever another one does.
* `Deployment.IsSubproperty`: a property that counts as below another one.
* `Deployment.covers_property`: a condition on a property, and the same one on a subproperty.
* `Deployment.answers_compared`: there is a clause unless a time is too far off.
-/

namespace FactIndex

theorem Field.inGroup_append (group array suffix : String) :
    inGroup group array ++ suffix = inGroup group (array ++ suffix) := String.append_assoc

namespace Condition

/-- A condition whose copy for another property is the condition on that property. -/
def IsCopied (make : String → Except Failure Matched) : Prop :=
  ∀ n k m, make (Field.group n) = .ok m → make (Field.group k) =
    .ok { m with clause := Clause.renameFields (Field.group n ++ ".") (Field.group k ++ ".") m.clause }

variable {q : QuerySettings} {normalKeywords : Bool} {type : ValueType} {value : Json}

theorem isCopied_of_ofGroup {clause : String → Json} (h : Clause.OfGroup fun n => clause (Field.group n))
    (array : String) (value : Json) (negated isFilter : Bool) :
    IsCopied fun group => .ok ⟨clause group, array, value, negated, isFilter⟩ := by
  rintro n k _ ⟨⟩
  exact congrArg (fun copy => Except.ok (Matched.mk copy array value negated isFilter)) (h n k).symm

theorem isCopied_bounded (array : String) (item : Item) (c : Comparator) (hvalue : Clause.IsPlain value) :
    IsCopied fun group => bounded group array item c value := by
  unfold bounded Clause.range
  cases hbound : c.bound? with
  | none =>
      rintro n k m h
      cases h
  | some bound =>
      exact isCopied_of_ofGroup (Clause.ofGroup_range _ hvalue (Clause.isInert_bound hbound)) _ _ _ _

theorem isCopied_textEquals (array s : String) :
    IsCopied fun group => .ok (textEquals q normalKeywords type group array s) := by
  unfold textEquals
  simp only [Field.inGroup_append]
  by_cases htype : type = .keyword
  · simp only [htype, if_true]
    exact isCopied_of_ofGroup (Clause.ofGroup_term _ (Clause.isPlain_str _)) _ _ _ _
  · simp only [htype, if_false]
    cases q.textIgnoresCase with
    | true => exact isCopied_of_ofGroup (Clause.ofGroup_phrase _ (Clause.isPlain_str _)) _ _ _ _
    | false => exact isCopied_of_ofGroup (Clause.ofGroup_term _ (Clause.isPlain_str _)) _ _ _ _

theorem isCopied_uriEquals (array s : String) :
    IsCopied fun group => .ok (uriEquals q group array s) := by
  unfold uriEquals
  simp only [Field.inGroup_append]
  cases q.uriIgnoresCase with
  | true => exact isCopied_of_ofGroup (Clause.ofGroup_phrase _ (Clause.isPlain_str _)) _ _ _ _
  | false => exact isCopied_of_ofGroup (Clause.ofGroup_term _ (Clause.isPlain_str _)) _ _ _ _

theorem isCopied_textUnlike (array s : String) :
    IsCopied fun group => .ok (textUnlike q group array s) := by
  unfold textUnlike
  dsimp only
  split <;> exact isCopied_of_ofGroup (Clause.ofGroup_queryString [array] (Clause.isPlain_str _)) _ _ _ _

theorem isCopied_uriLike (array s : String) (negated : Bool) :
    IsCopied fun group => .ok (uriLike q group array s negated) :=
  isCopied_of_ofGroup (Clause.ofGroup_queryString [_] (Clause.isPlain_str _)) _ _ _ _

/-- Patterns for texts are looked for in the words and in the whole. -/
theorem isCopied_textLike (array s : String) : IsCopied fun group =>
    .ok ⟨Clause.queryString (Json.ofTexts [Field.inGroup group array,
      Field.inGroup group array ++ ".keyword"]) (.str s), array, .str s, false, false⟩ := by
  simp only [Field.inGroup_append]
  exact isCopied_of_ofGroup
    (Clause.ofGroup_queryString [array, array ++ ".keyword"] (Clause.isPlain_str s)) _ _ _ _

theorem isCopied_inBox (array : String) (a : Area) (value : Json) (negated : Bool) : IsCopied fun group =>
    .ok ⟨inBox (Field.inGroup group array ++ ".point") a, array, value, negated, false⟩ := by
  simp only [Field.inGroup_append]
  exact isCopied_of_ofGroup (Clause.ofGroup_boundingBox _ (Clause.isPlain_float _) (Clause.isPlain_float _)
    (Clause.isPlain_float _) (Clause.isPlain_float _)) _ _ _ _

/-- The copy of a condition on the values of a property is the condition on the other property. -/
theorem isCopied_ofProperty (array : String) (item : Item) (c : Comparator) (hvalue : Clause.IsPlain value)
    (hobj : ∀ ms, value ≠ .obj ms) :
    IsCopied fun group => ofProperty q normalKeywords type group array item c value := by
  have hterm : ∀ negated isFilter, IsCopied fun group =>
      .ok ⟨Clause.term (Field.inGroup group array) value, array, value, negated, isFilter⟩ :=
    isCopied_of_ofGroup (Clause.ofGroup_term array hvalue) array value
  have hwords : ∀ negated, IsCopied fun group => .ok ⟨Clause.words (.str (Field.inGroup group array)) value
      "and", array, value, negated, false⟩ := fun negated =>
    isCopied_of_ofGroup (Clause.ofGroup_words array "and" hvalue) array value negated false
  cases item with
  | area a => exact isCopied_inBox array a value _
  | text s =>
      cases c with
      | less | greater | leq | geq => exact isCopied_bounded array (.text s) _ hvalue
      | eq => exact isCopied_textEquals array s
      | neq => exact hterm true false
      | like => exact isCopied_textLike array s
      | nlike => exact isCopied_textUnlike array s
      | primLike | primNlike => exact hwords _
  | uri s =>
      cases c with
      | less | greater | leq | geq => exact isCopied_bounded array (.uri s) _ hvalue
      | eq => exact isCopied_uriEquals array _
      | neq => exact hterm true false
      | like => exact isCopied_uriLike array _ false
      | nlike => exact isCopied_uriLike array _ true
      | primLike | primNlike => exact hwords _
  | page e =>
      cases c with
      | less | greater | leq | geq => exact isCopied_bounded array (.page e) _ hvalue
      | eq => exact hterm false true
      | neq => exact hterm true false
      | like => exact isCopied_of_ofGroup (Clause.ofGroup_queryString [array] (Clause.isPlain_str _)) _ _ _ _
      | nlike => exact isCopied_textUnlike array _
      | primLike | primNlike => exact hwords _
  | coordinate lat lon =>
      cases c with
      | less | greater | leq | geq => exact isCopied_bounded array (.coordinate lat lon) _ hvalue
      | eq => exact isCopied_of_ofGroup (Clause.ofGroup_terms array hvalue hobj) _ _ _ _
      | neq => exact hterm true false
      | like | nlike | primLike | primNlike => exact hwords _
  | number x =>
      cases c with
      | less | greater | leq | geq => exact isCopied_bounded array (.number x) _ hvalue
      | eq => exact hterm false true
      | neq => exact hterm true false
      | like | nlike | primLike | primNlike => exact hwords _
  | boolean b =>
      cases c with
      | less | greater | leq | geq => exact isCopied_bounded array (.boolean b) _ hvalue
      | eq => exact hterm false true
      | neq => exact hterm true false
      | like | nlike | primLike | primNlike => exact hwords _
  | time t =>
      cases c with
      | less | greater | leq | geq => exact isCopied_bounded array (.time t) _ hvalue
      | eq => exact hterm false true
      | neq => exact hterm true false
      | like | nlike | primLike | primNlike => exact hwords _

/-- A condition that is not to be negated makes a clause that is taken as it is. -/
theorem negated_ofProperty {group array : String} {item : Item} {c : Comparator} {m : Matched}
    (hc : c.isNegated = false) (h : ofProperty q normalKeywords type group array item c value = .ok m) :
    m.negated = false := by
  have hbounded : ∀ c, bounded group array item c value = .ok m → m.negated = false := by
    intro c hm
    unfold bounded Clause.range at hm
    cases hbound : c.bound? <;> rw [hbound] at hm <;> cases hm
    rfl
  cases c with
  | neq | nlike => cases hc
  | less | greater | leq | geq =>
      cases item with
      | area =>
          cases h
          rfl
      | page | text | uri | number | boolean | time | coordinate => exact hbounded _ h
  | eq =>
      cases item with
      | text s =>
          cases h
          unfold textEquals
          dsimp only
          split
          · rfl
          · split <;> rfl
      | uri s =>
          cases h
          unfold uriEquals
          dsimp only
          split <;> rfl
      | page | number | boolean | time | coordinate | area =>
          cases h
          rfl
  | like | primLike | primNlike => cases item <;> cases h <;> rfl

end Condition

open FactIndex.Calendar FactIndex.Effect FactIndex.Compiling

variable {σ : Type}

namespace Description

mutual

/-- Any value, one that compares with an item, or one of several such descriptions. -/
def isCompared : Description → Bool
  | .thing negated => !negated
  | .value _ comparator _ => !comparator.normal.isNegated
  | .disjunction ds => areCompared ds
  | _ => false

/-- Whether each of several descriptions is of that kind. -/
def areCompared : List Description → Bool
  | [] => true
  | d :: ds => d.isCompared && areCompared ds

end

end Description

namespace Clause

/-- A clause selects whatever the other one selects. -/
def Covers (clause other : Json) : Prop :=
  ∀ M doc, holds M doc other = true → holds M doc clause = true

theorem any_of_covers {clauses others : List Json} (h : List.Forall₂ Covers clauses others) (M : Matching)
    (doc : Indexed) (hany : others.any (holds M doc) = true) : clauses.any (holds M doc) = true := by
  induction h with
  | nil => exact hany
  | cons hfirst _ ih =>
      rw [List.any_cons, Bool.or_eq_true] at hany ⊢
      exact hany.imp (hfirst M doc) ih

theorem forall₂_toList {clause other : Option Json} (h : Option.Rel Covers clause other) :
    List.Forall₂ Covers clause.toList other.toList := by
  cases h with
  | none => exact .nil
  | some h => exact .cons h .nil

end Clause

namespace Condition.Matched

/-- What a condition that is taken as it is selects, with its copies. -/
theorem holds_whole {m : Matched} (hm : m.negated = false) (group : String) (lower : List Int) (M : Matching)
    (doc : Indexed) : Clause.holds M doc (m.whole group lower) = (Clause.holds M doc m.clause ||
      lower.any fun k => Clause.holds M doc
        (Clause.renameFields (group ++ ".") (Field.group k ++ ".") m.clause)) := by
  unfold whole occur
  rw [← Clause.holds_copies]
  cases m.isFilter <;> simp [hm]

/-- The condition on a subproperty is among the copies of the condition on the property. -/
theorem covers_whole {m : Matched} (hm : m.negated = false) (n : Int) {k : Int} {lower : List Int}
    (hk : k ∈ lower) : Clause.Covers (m.whole (Field.group n) lower)
      ({ m with clause := Clause.renameFields (Field.group n ++ ".") (Field.group k ++ ".") m.clause }.whole
        (Field.group k) []) := by
  intro M doc hcopy
  have hcopies := holds_whole (m := { m with
    clause := Clause.renameFields (Field.group n ++ ".") (Field.group k ++ ".") m.clause }) hm
    (Field.group k) [] M doc
  rw [hcopies] at hcopy
  rw [holds_whole hm, Bool.or_eq_true]
  exact .inr (List.any_eq_true.mpr ⟨k, hk, by simpa using hcopy⟩)

end Condition.Matched

namespace Deployment

variable {d : Deployment σ} {p p' : Property} {depth : Option Int} {c : Catalog}
  {s s' t t' : World σ × Progress}

/-- Where a property lies is read off any later catalog. -/
theorem site_of_later {site : String × List Int}
    (h : (act (d.propertySite p depth)).outcome s = (.ok site, t)) (hgrows : t.1.catalog.Grows c) :
    ∃ n, c.numberOf? (.property p) = some n ∧
      site = (Field.group n, c.numbersOf (c.lower (.property p) (d.depthOf depth))) := by
  obtain ⟨lower, c', hsite, -, hown, hknown, hnumbers⟩ := d.exists_propertySite_reach p depth s.1
  rw [outcome_act, hsite] at h
  cases h
  refine ⟨_, hgrows.numbers _ _ hown, ?_⟩
  rw [hgrows.lower_eq, hgrows.numbersOf_eq hknown, hnumbers]

/-- A condition on a direct property is what it looks at. -/
theorem exists_of_valueClause (hdirect : p.inverse = false) {path : List Nat} {site : String × List Int}
    {item : Item} {comparator : Comparator} {named : Option Property} {clause : Json}
    (h : (d.valueClause path p site item comparator named).outcome s = (.ok clause, t)) : ∃ target m u,
      (act (arrayValue (Field.ofProperty p) item comparator.normal)).outcome s = (.ok target, u) ∧
      u.1 = t.1 ∧ d.conditionAt p item comparator.normal ⟨site.1, site.2, target.1, target.2⟩ = .ok m ∧
      clause = m.whole site.1 site.2 := by
  rcases htarget : (arrayValue (Field.ofProperty p) item comparator.normal).outcome s.1 with ⟨e | target, w⟩
  · have hact : (act (arrayValue (Field.ofProperty p) item comparator.normal)).outcome s =
        (.error e, (w, s.2)) := by rw [outcome_act, htarget]
    have hfails : (d.valueClause path p site item comparator named).outcome s = (.error e, (w, s.2)) := by
      unfold valueClause propertyCondition
      dsimp only
      rw [outcome_bind_of_error (outcome_bind_of_error hact _)]
    rw [hfails] at h
    cases h
  · obtain ⟨m, hm⟩ := Condition.exists_ofProperty d.settings.query d.settings.writer.normalKeywords
      p.valueType site.1 target.1 item comparator.normal target.2
    obtain ⟨progress, hclause⟩ := d.outcome_valueClause hdirect path site named htarget hm
    rw [hclause] at h
    cases h
    exact ⟨target, m, (w, s.2), by rw [outcome_act, htarget], rfl, hm, rfl⟩

/-- No field is named in a value that is compared. -/
theorem answers_isPlain (array : String) (item : Item) (comparator : Comparator) :
    Answers (arrayValue array item comparator : Action σ (String × Json)) True fun found =>
      Clause.IsPlain found.2 := by
  have hsearch : ∀ value, item.searchValue = .ok value → Clause.IsPlain value := by
    intro value h
    cases item with
    | time t =>
        cases hday : TimeOf.dayNumber t <;> simp only [Item.searchValue, hday] at h <;> cases h
        exact Clause.isPlain_float _
    | number x =>
        cases h
        exact Clause.isPlain_float x
    | boolean b =>
        cases h
        exact Clause.isPlain_bool b
    | page | text | uri | coordinate | area =>
        cases h
        exact Clause.isPlain_str _
  unfold arrayValue
  split
  · split
    · exact (Answers.numberOf _).bind fun n _ => Answers.pure (Clause.isPlain_int n)
    · exact Answers.pure (Clause.isPlain_str _)
  · exact Answers.pure (Clause.isPlain_str _)
  · exact (Answers.ofExcept hsearch fun _ _ => trivial).bind fun _ hvalue => Answers.pure hvalue

/-! ## Subproperties that count -/

variable (d) in
/-- A property counts as below another one. Both are direct, and have values of the same type. -/
structure IsSubproperty (c : Catalog) (p' p : Property) (depth : Option Int) : Prop where
  direct : p.inverse = false
  direct' : p'.inverse = false
  valueType : p'.valueType = p.valueType
  below : Numbered.property p' ∈ c.lower (.property p) (d.depthOf depth)

namespace IsSubproperty

/-- What is below a property stays there. -/
theorem of_grows {c' : Catalog} (h : d.IsSubproperty c p' p depth) (hgrows : c.Grows c') :
    d.IsSubproperty c' p' p depth :=
  { h with below := by rw [hgrows.lower_eq]; exact h.below }

theorem ofProperty_eq (h : d.IsSubproperty c p' p depth) : Field.ofProperty p' = Field.ofProperty p :=
  congrArg Field.ofType h.valueType

theorem isPage_eq (h : d.IsSubproperty c p' p depth) : p'.isPage = p.isPage := by
  unfold Property.isPage
  rw [h.valueType]

end IsSubproperty

/-- A subproperty lies at one of the numbers below. -/
theorem exists_sites (hsub : d.IsSubproperty c p' p depth)
    {site site' : String × List Int} {u u' : World σ × Progress}
    (h : (act (d.propertySite p depth)).outcome s = (.ok site, u))
    (h' : (act (d.propertySite p' (some 0))).outcome s' = (.ok site', u'))
    (hgrows : u.1.catalog.Grows c) (hgrows' : u'.1.catalog.Grows c) :
    ∃ n k lower, site = (Field.group n, lower) ∧ site' = (Field.group k, []) ∧ k ∈ lower := by
  obtain ⟨n, -, rfl⟩ := site_of_later h hgrows
  obtain ⟨k, hk, rfl⟩ := site_of_later h' hgrows'
  have hnone : c.lower (.property p') (d.depthOf (some 0)) = [] := front_ofNat _ 0
  rw [hnone]
  exact ⟨n, k, _, rfl, rfl, List.mem_filterMap.mpr ⟨_, hsub.below, hk⟩⟩

/-- A condition that compares covers the same one on a subproperty. -/
theorem covers_value (hsub : d.IsSubproperty c p' p depth) {item : Item} {comparator : Comparator}
    {named : Option Property} (hpositive : comparator.normal.isNegated = false) {path path' : List Nat}
    {n k : Int} {lower : List Int}
    (hk : k ∈ lower) {clause clause' : Json}
    (h : (d.valueClause path p (Field.group n, lower) item comparator named).outcome s = (.ok clause, t))
    (h' : (d.valueClause path' p' (Field.group k, []) item comparator named).outcome s' = (.ok clause', t'))
    (hgrows : t.1.catalog.Grows c) (hgrows' : t'.1.catalog.Grows c) : Clause.Covers clause clause' := by
  obtain ⟨target, m, u, htarget, hu, hm, rfl⟩ := exists_of_valueClause hsub.direct h
  obtain ⟨target', m', u', htarget', hu', hm', rfl⟩ := exists_of_valueClause hsub.direct' h'
  rw [hsub.ofProperty_eq] at htarget'
  have hsame : target' = target := (repeatedBy_arrayValue _ _ _).eq_of_later (repeatedBy_arrayValue _ _ _)
    htarget htarget' (by rwa [hu]) (by rwa [hu'])
  subst hsame
  have hplain := (answers_isPlain _ item comparator.normal).act.good s target' (by rw [htarget])
  have hobj := (answers_arrayValue _ item comparator.normal).act.good s target' (by rw [htarget])
  have hcopy := Condition.isCopied_ofProperty target'.1 item comparator.normal hplain hobj n k m hm
  unfold conditionAt at hm'
  rw [hsub.valueType] at hm'
  cases hcopy.symm.trans hm'
  exact Condition.Matched.covers_whole (Condition.negated_ofProperty hpositive hm) n hk

mutual

/-- By induction on the description of the values: where they are compared, or are any values, the condition
on a property covers the one on a subproperty. -/
theorem covers_property (hsub : d.IsSubproperty c p' p depth) (k k' : Nat) (path path' : List Nat) :
    (inner : Description) → inner.isCompared = true → ∀ {s s' t t' : World σ × Progress} {found found'},
    (d.compileProperty (d.expandConcept k) path none p depth inner).outcome s = (.ok found, t) →
    (d.compileProperty (d.expandConcept k') path' none p' (some 0) inner).outcome s' = (.ok found', t') →
    t.1.catalog.Grows c → t'.1.catalog.Grows c → Option.Rel Clause.Covers found found'
  | .thing negated, hcompared, s, s', t, t', found, found', h, h', hgrows, hgrows' => by
      rw [compileProperty] at h h'
      obtain ⟨site, u, hsite, h⟩ := exists_of_bind_ok h
      obtain ⟨site', u', hsite', h'⟩ := exists_of_bind_ok h'
      cases h
      cases h'
      obtain ⟨n, k, lower, rfl, rfl, hk⟩ := exists_sites hsub hsite hsite' hgrows hgrows'
      refine .some fun M doc => ?_
      rw [holds_presenceClause, holds_presenceClause]
      simp only [Description.isCompared, Bool.not_eq_true'] at hcompared
      rw [hcompared, hsub.isPage_eq, hsub.ofProperty_eq]
      simp only [Bool.false_bne, List.any_cons, List.any_nil, Bool.or_false, Bool.or_eq_true]
      exact fun hvalue => .inr (List.any_eq_true.mpr ⟨k, hk, hvalue⟩)
  | .value item comparator named, hcompared, s, s', t, t', found, found', h, h', hgrows, hgrows' => by
      rw [compileProperty] at h h'
      obtain ⟨site, u, hsite, h⟩ := exists_of_bind_ok h
      obtain ⟨site', u', hsite', h'⟩ := exists_of_bind_ok h'
      obtain ⟨clause, v, hclause, h⟩ := exists_of_bind_ok h
      obtain ⟨clause', v', hclause', h'⟩ := exists_of_bind_ok h'
      cases h
      cases h'
      obtain ⟨n, k, lower, rfl, rfl, hk⟩ := exists_sites hsub hsite hsite'
        (((d.isBuilt_valueClause path p site item comparator named).grows hclause).trans hgrows)
        (((d.isBuilt_valueClause path' p' site' item comparator named).grows hclause').trans hgrows')
      exact .some (covers_value hsub (by simpa [Description.isCompared] using hcompared)
        hk hclause hclause' hgrows hgrows')
  | .disjunction ds, hcompared, s, s', t, t', found, found', h, h', hgrows, hgrows' => by
      rw [compileProperty] at h h'
      obtain ⟨site, u, -, h⟩ := exists_of_bind_ok h
      obtain ⟨site', u', -, h'⟩ := exists_of_bind_ok h'
      obtain ⟨clauses, v, hclauses, h⟩ := exists_of_bind_ok h
      obtain ⟨clauses', v', hclauses', h'⟩ := exists_of_bind_ok h'
      dsimp only at h h'
      rw [linked_none] at h h'
      cases h
      cases h'
      have hcovers := covers_alternatives hsub k k' (path ++ [0]) (path' ++ [0]) 0 0 ds hcompared
        hclauses hclauses' hgrows hgrows'
      cases hcovers with
      | nil => exact .none
      | cons hfirst hrest =>
          refine .some fun M doc hholds => ?_
          simp only [Clause.holds_should, List.isEmpty_cons, Bool.false_or, List.any_cons, List.any_nil,
            Bool.or_false] at hholds ⊢
          exact Clause.any_of_covers (.cons hfirst hrest) M doc hholds

/-- The conditions with several descriptions cover those on a subproperty, one by one. -/
theorem covers_alternatives (hsub : d.IsSubproperty c p' p depth) (k k' : Nat) (path path' : List Nat)
    (i i' : Nat) :
    (ds : List Description) → Description.areCompared ds = true →
    ∀ {s s' t t' : World σ × Progress} {found found'},
    (d.compileAlternatives (d.expandConcept k) path none p depth i ds).outcome s = (.ok found, t) →
    (d.compileAlternatives (d.expandConcept k') path' none p' (some 0) i' ds).outcome s' = (.ok found', t') →
    t.1.catalog.Grows c → t'.1.catalog.Grows c → List.Forall₂ Clause.Covers found found'
  | [], _, s, s', t, t', found, found', h, h', _, _ => by
      rw [compileAlternatives] at h h'
      cases h
      cases h'
      exact .nil
  | m :: ms, hcompared, s, s', t, t', found, found', h, h', hgrows, hgrows' => by
      simp only [Description.areCompared, Bool.and_eq_true] at hcompared
      rw [compileAlternatives] at h h'
      obtain ⟨clause, u, hclause, h⟩ := exists_of_bind_ok h
      obtain ⟨clause', u', hclause', h'⟩ := exists_of_bind_ok h'
      obtain ⟨rest, v, hrest, h⟩ := exists_of_bind_ok h
      obtain ⟨rest', v', hrest', h'⟩ := exists_of_bind_ok h'
      cases h
      cases h'
      have hlater := (isBuilt_alternatives (isBuilt_expandConcept k) path none p depth (i + 1) ms).grows hrest
      have hlater' := (isBuilt_alternatives (isBuilt_expandConcept k') path' none p' (some 0) (i' + 1)
        ms).grows hrest'
      have hfirst := covers_property hsub k k' (path ++ [i]) (path' ++ [i']) m hcompared.1 hclause hclause'
        (hlater.trans hgrows) (hlater'.trans hgrows')
      exact List.rel_append (Clause.forall₂_toList hfirst)
        (covers_alternatives hsub k k' path path' (i + 1) (i' + 1) ms hcompared.2 hrest hrest' hgrows hgrows')

end

mutual

/-- A condition that compares has a clause unless a time is too far off. -/
theorem answers_compared (hdirect : p.inverse = false) (expand : Expansion σ) (path : List Nat) :
    (inner : Description) → inner.isCompared = true →
    Answers (d.compileProperty expand path none p depth inner)
      (∃ t ∈ inner.times, ¬ ∃ x, TimeOf.dayNumber t = .ok x) fun _ => True
  | .thing negated, _ =>
      have hleaf : Description.IsLeaf (.thing negated) := trivial
      (d.answers_property hdirect hleaf expand path depth).mono fun _ _ => trivial
  | .value item comparator named, _ =>
      have hleaf : Description.IsLeaf (.value item comparator named) := trivial
      (d.answers_property hdirect hleaf expand path depth).mono fun _ _ => trivial
  | .disjunction ds, hcompared => by
      rw [compileProperty]
      refine (d.answers_propertySite p depth).act.bind fun _ _ =>
        (answers_comparedAll hdirect expand (path ++ [0]) 0 ds hcompared).bind fun clauses _ => ?_
      dsimp only
      rw [linked_none]
      exact Answers.pure trivial

/-- The conditions with several descriptions have clauses unless a time is too far off. -/
theorem answers_comparedAll (hdirect : p.inverse = false) (expand : Expansion σ) (path : List Nat) (i : Nat) :
    (ds : List Description) → Description.areCompared ds = true →
    Answers (d.compileAlternatives expand path none p depth i ds)
      (∃ t ∈ Description.allTimes ds, ¬ ∃ x, TimeOf.dayNumber t = .ok x) fun _ => True
  | [], _ => by
      rw [compileAlternatives]
      exact Answers.pure trivial
  | m :: ms, hcompared => by
      simp only [Description.areCompared, Bool.and_eq_true] at hcompared
      rw [compileAlternatives]
      refine Answers.bind ((answers_compared hdirect expand (path ++ [i]) m hcompared.1).of_fails ?_)
        fun _ _ => Answers.bind ((answers_comparedAll hdirect expand path (i + 1) ms hcompared.2).of_fails
          ?_) fun _ _ => Answers.pure trivial
      all_goals
        rintro ⟨t, ht, hday⟩
        exact ⟨t, by simp [Description.allTimes, ht], hday⟩

end

end Deployment

end FactIndex
