import FactIndex.Proofs.Compile.Chain

/-!
# Conditions on direct properties

What a condition on a direct property looks at is found in the catalog: where the values of the property
lie, what lies below it, and the number or text that is compared. The clause follows from that alone.

## Main definitions

* `Deployment.Aim`, `Deployment.aim`: what a condition looks at.
* `Condition.Matched.whole`: the query that a condition amounts to.
* `Deployment.outcome_compile_value`: how a condition on a direct property is compiled.
-/

namespace FactIndex

open FactIndex.Calendar FactIndex.Effect FactIndex.Compiling

variable {σ : Type}

namespace Catalog.Grows

variable {c c' : Catalog} (h : c.Grows c')
include h

/-- Hierarchies stay as they are. -/
theorem lower_eq (item : Numbered) (depth : Option Int) : c'.lower item depth = c.lower item depth := by
  unfold lower members
  rw [h.hierarchy]

/-- Numbers that were given stay as they are. -/
theorem numbersOf_eq {items : List Numbered} (hknown : ∀ item ∈ items, c.Knows item) :
    c'.numbersOf items = c.numbersOf items := by
  refine List.filterMap_congr fun item hitem => ?_
  obtain ⟨n, hn⟩ := hknown item hitem
  rw [hn]
  exact h.numbers _ n hn

end Catalog.Grows

namespace Condition.Matched

/-- The query that a condition on a direct property amounts to, given the group of the property and the
numbers of what lies below it. -/
def whole (m : Matched) (group : String) (lower : List Int) : Json :=
  let clause := Clause.overHierarchy m.clause group lower
  if m.negated then
    Clause.compound .must [Clause.hasField (Field.inGroup group m.array),
      Clause.compound .mustNot [clause]]
  else Clause.compound m.occur [clause]

end Condition.Matched

namespace Deployment

/-- What a condition on a property looks at. -/
structure Aim where
  group : String
  lower : List Int
  array : String
  value : Json

/-- Finds out what a condition on a property looks at. -/
def aim (d : Deployment σ) (p : Property) (depth : Option Int) (item : Item) (c : Comparator) :
    Action σ Aim := do
  let site ← d.propertySite p depth
  let target ← arrayValue (Field.ofProperty p) item c
  return ⟨site.1, site.2, target.1, target.2⟩

/-- The condition that is made of what it looks at. -/
def conditionAt (d : Deployment σ) (p : Property) (item : Item) (c : Comparator) (a : Aim) :
    Except Failure Condition.Matched :=
  Condition.ofProperty d.settings.query d.settings.writer.normalKeywords p.valueType a.group a.array
    item c a.value

variable (d : Deployment σ) {p : Property} {depth : Option Int} {item : Item} {c : Comparator}
  {named : Option Property}

theorem outcome_valueClause (hdirect : p.inverse = false) (path : List Nat) (site : String × List Int)
    (named : Option Property)
    {s : World σ × Progress} {u : World σ} {target : String × Json} {m : Condition.Matched}
    (htarget : (arrayValue (Field.ofProperty p) item c.normal).outcome s.1 = (.ok target, u))
    (hm : d.conditionAt p item c.normal ⟨site.1, site.2, target.1, target.2⟩ = .ok m) :
    ∃ progress, (d.valueClause path p site item c named).outcome s =
      (.ok (m.whole site.1 site.2), (u, progress)) := by
  have hact : (Compiling.act (arrayValue (Field.ofProperty p) item c.normal)).outcome s =
      (.ok target, (u, s.2)) := by rw [outcome_act, htarget]
  have hcondition : (d.propertyCondition p site.1 item c named).outcome s = (.ok m, (u, s.2)) := by
    unfold propertyCondition
    unfold conditionAt at hm
    dsimp only at hm ⊢
    rw [outcome_bind_of_ok hact]
    simp only [hm, hdirect, Bool.not_false, if_true]
    rfl
  unfold valueClause Condition.Matched.whole
  rw [outcome_bind_of_ok hcondition, hdirect]
  cases m.negated with
  | false => exact ⟨_, rfl⟩
  | true =>
      simp only [if_true, negatedClause]
      split <;> exact ⟨_, rfl⟩

/-- A sequence of steps on the catalog. What is known of each result stays true when more has a number. -/
theorem exists_mapM {α β : Type} {f : α → Action σ β} {P : Catalog → α → β → Prop}
    (hmono : ∀ c c' a b, c.Grows c' → P c a b → P c' a b) (items : List α)
    (h : ∀ a ∈ items, ∀ w : World σ, ∃ b c,
      (f a).outcome w = (.ok b, { w with catalog := c }) ∧ w.catalog.Grows c ∧ P c a b)
    (w : World σ) : ∃ results c,
      (items.mapM f).outcome w = (.ok results, { w with catalog := c }) ∧ w.catalog.Grows c ∧
        List.Forall₂ (P c) items results := by
  induction items generalizing w with
  | nil => exact ⟨[], w.catalog, rfl, .refl _, .nil⟩
  | cons a items ih =>
      obtain ⟨hfirst, hrest⟩ := List.forall_mem_cons.mp h
      obtain ⟨b, c, hb, hc, hP⟩ := hfirst w
      obtain ⟨results, c', hresults, hc', hPs⟩ := ih hrest { w with catalog := c }
      refine ⟨b :: results, c', ?_, hc.trans hc', .cons (hmono c c' a b hc' hP) hPs⟩
      rw [List.mapM_cons, outcome_bind_of_ok hb, outcome_bind_of_ok hresults]
      rfl

/-- What is asked for a number has it from then on. -/
theorem exists_number (item : Numbered) (w : World σ) : ∃ n c,
    (numberOf item).outcome w = (.ok n, { w with catalog := c }) ∧ w.catalog.Grows c ∧
      c.numberOf? item = some n :=
  ⟨_, _, rfl, w.catalog.grows_number item, w.catalog.get?_number item⟩

/-- What is asked for several numbers has them from then on. -/
theorem exists_numbersOf (items : List Numbered) (w : World σ) : ∃ numbers c,
    (items.mapM numberOf).outcome w = (.ok numbers, { w with catalog := c }) ∧ w.catalog.Grows c ∧
      (∀ item ∈ items, c.Knows item) ∧ c.numbersOf items = numbers := by
  obtain ⟨numbers, c, hrun, hgrows, hnumbers⟩ := exists_mapM (f := numberOf)
    (P := fun c item n => c.numberOf? item = some n) (fun _ _ _ _ h hn => h.numbers _ _ hn) items
    (fun item _ w => exists_number item w) w
  refine ⟨numbers, c, hrun, hgrows, ?_⟩
  clear hrun
  induction hnumbers with
  | nil => exact ⟨by simp, rfl⟩
  | cons hn _ ih =>
      exact ⟨List.forall_mem_cons.mpr ⟨⟨_, hn⟩, ih.1⟩, by rw [Catalog.numbersOf_cons hn, ih.2]⟩

/-- What lies below an item has numbers from then on. -/
theorem exists_below (item : Numbered) (depth : Option Int) (w : World σ) : ∃ lower c,
    (below item depth).outcome w = (.ok lower, { w with catalog := c }) ∧ w.catalog.Grows c ∧
      (∀ other ∈ c.lower item depth, c.Knows other) ∧ c.numbersOf (c.lower item depth) = lower := by
  obtain ⟨lower, c, hlower, hgrows, hknown, hnumbers⟩ := exists_numbersOf (w.catalog.lower item depth) w
  rw [← hgrows.lower_eq] at hknown hnumbers
  refine ⟨lower, c, ?_, hgrows, hknown, hnumbers⟩
  unfold below
  rw [outcome_bind_of_ok (outcome_catalog w)]
  exact hlower

/-- A property lies where its number and those of what lies below it say, which they have from then on. -/
theorem exists_propertySite_reach (p : Property) (depth : Option Int) (w : World σ) : ∃ lower c,
    (d.propertySite p depth).outcome w =
        (.ok (Field.group (w.catalog.number (.property p)).1, lower), { w with catalog := c }) ∧
      w.catalog.Grows c ∧ c.numberOf? (.property p) = some (w.catalog.number (.property p)).1 ∧
      (∀ item ∈ c.lower (.property p) (d.depthOf depth), c.Knows item) ∧
      c.numbersOf (c.lower (.property p) (d.depthOf depth)) = lower := by
  let numbered : World σ := { w with catalog := (w.catalog.number (.property p)).2 }
  have hnumber : (numberOf (.property p)).outcome w =
      (.ok (w.catalog.number (.property p)).1, numbered) := rfl
  obtain ⟨lower, c, hbelow, hgrows, hknown, hnumbers⟩ :=
    exists_below (.property p) (d.depthOf depth) numbered
  refine ⟨lower, c, ?_, (w.catalog.grows_number _).trans hgrows,
    hgrows.numbers _ _ (w.catalog.get?_number (.property p)), hknown, hnumbers⟩
  unfold propertySite
  rw [outcome_bind_of_ok hnumber, outcome_bind_of_ok hbelow]
  rfl

/-- A property lies where its number says. -/
theorem exists_propertySite_number (p : Property) (depth : Option Int) (w : World σ) :
    ∃ lower u, (d.propertySite p depth).outcome w =
      (.ok (Field.group (w.catalog.number (.property p)).1, lower), u) := by
  obtain ⟨lower, c, hsite, -⟩ := d.exists_propertySite_reach p depth w
  exact ⟨lower, _, hsite⟩

/-- A condition whose value is found without asking the catalog. -/
theorem exists_aim (depth : Option Int) (w : World σ) {target : String × Json}
    (htarget : ∀ v : World σ, (arrayValue (Field.ofProperty p) item c).outcome v = (.ok target, v)) :
    ∃ lower u, (d.aim p depth item c).outcome w = (.ok ⟨Field.group (w.catalog.number (.property p)).1,
      lower, target.1, target.2⟩, u) := by
  obtain ⟨lower, u, hsite⟩ := d.exists_propertySite_number p depth w
  unfold aim
  rw [outcome_bind_of_ok hsite, outcome_bind_of_ok (htarget u)]
  exact ⟨lower, u, rfl⟩

/-- A condition on a direct property is compiled to what it looks at. -/
theorem outcome_compile_value (hdirect : p.inverse = false) (isMember : Bool) (named : Option Property)
    {w u : World σ} {a : Aim} {m : Condition.Matched}
    (hportrait : d.settings.query.nodeLog = true →
      ∃ ms, (Description.someProperty p (.value item c named) depth).portrait = .ok ms)
    (ha : (d.aim p depth item c.normal).outcome w = (.ok a, u))
    (hm : d.conditionAt p item c.normal a = .ok m) :
    ∃ progress, (d.compile isMember (.someProperty p (.value item c named) depth)).outcome w =
      (.ok (some (m.whole a.group a.lower), progress), u) := by
  obtain ⟨start, -, hstart⟩ := d.exists_start hportrait isMember w
  obtain ⟨site, v, hsite, ha⟩ := exists_of_bind_ok ha
  obtain ⟨target, u', htarget, ha⟩ := exists_of_bind_ok ha
  cases ha
  have hact : (Compiling.act (d.propertySite p depth)).outcome (w, start) = (.ok site, (v, start)) := by
    rw [outcome_act, hsite]
  obtain ⟨progress, hclause⟩ :=
    d.outcome_valueClause (s := (v, start)) hdirect [] site named htarget hm
  rw [hstart, compileProperty, outcome_bind_of_ok hact, outcome_bind_of_ok hclause]
  exact ⟨progress, rfl⟩

/-- If what it looks at cannot be found, there is no query. -/
theorem compile_value_error (isMember : Bool) {w u : World σ} {e : Failure}
    (hportrait : d.settings.query.nodeLog = true →
      ∃ ms, (Description.someProperty p (.value item c named) depth).portrait = .ok ms)
    (ha : (d.aim p depth item c.normal).outcome w = (.error e, u)) :
    (d.compile isMember (.someProperty p (.value item c named) depth)).outcome w = (.error e, u) := by
  obtain ⟨start, -, hstart⟩ := d.exists_start hportrait isMember w
  rw [hstart, compileProperty]
  unfold aim at ha
  rw [outcome_bind] at ha
  rcases hsite : (d.propertySite p depth).outcome w with ⟨e' | site, v⟩ <;> rw [hsite] at ha
  · cases ha
    have hact : (Compiling.act (d.propertySite p depth)).outcome (w, start) =
        (.error e, (u, start)) := by rw [outcome_act, hsite]
    rw [outcome_bind_of_error hact]
    rfl
  · dsimp only at ha
    rw [outcome_bind] at ha
    rcases htarget : (arrayValue (Field.ofProperty p) item c.normal).outcome v with ⟨e' | target, v'⟩ <;>
      rw [htarget] at ha <;> cases ha
    have hact : (Compiling.act (d.propertySite p depth)).outcome (w, start) =
        (.ok site, (v, start)) := by rw [outcome_act, hsite]
    have htarget' : (Compiling.act (arrayValue (Field.ofProperty p) item c.normal)).outcome (v, start) =
        (.error e, (u, start)) := by rw [outcome_act, htarget]
    have hclause : (d.valueClause [] p site item c named).outcome (v, start) = (.error e, (u, start)) := by
      unfold valueClause propertyCondition
      dsimp only
      rw [outcome_bind_of_error (outcome_bind_of_error htarget' _)]
    rw [outcome_bind_of_ok hact, outcome_bind_of_error hclause]
    rfl

end Deployment

end FactIndex
