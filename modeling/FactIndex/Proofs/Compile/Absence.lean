import FactIndex.Proofs.Compile.Contrary

/-!
# Absence in a hierarchy of properties

A condition on a property also looks at what lies below the property. Its contrary selects only documents
with a value, but asks for a value of the property itself. So a document with nothing but values of
properties below is selected by neither unless one of them is the value that is asked for.

## Main definitions

* `Deployment.exists_aim_reach`: what a plain condition looks at, read off the catalog at the end.
* `Clause.divides_iff`: which documents a condition and its contrary divide between them.
* `Deployment.compile_absent`: the two queries for a property with others below it.
-/

namespace FactIndex

open FactIndex.Calendar FactIndex.Effect

variable {σ : Type}

namespace Clause

/-- A value is in one of the fields. -/
def isIn (M : Matching) (doc : Indexed) (fields : List String) (value : Json) : Bool :=
  fields.any fun field => M.hasValue doc field value

/-- A query for a value in one of the fields, and the query against it, which asks for a value of a
field of its own. -/
structure Opposed (own : String) (fields : List String) (value : Json) (equal contrary : Json) : Prop where
  equal : ∀ M doc, holds M doc equal = isIn M doc fields value
  contrary : ∀ M doc, holds M doc contrary = (!(doc own).isEmpty && !isIn M doc fields value)

namespace Opposed

variable {own : String} {fields : List String} {value equal contrary : Json}

/-- Exactly one of the two selects a document if there is a value in the field of its own, or if the value
is in one of the fields. -/
theorem divides_iff (h : Opposed own fields value equal contrary) (M : Matching) (doc : Indexed) :
    holds M doc equal = !holds M doc contrary ↔ doc own ≠ [] ∨ isIn M doc fields value = true := by
  rw [h.equal, h.contrary]
  cases isIn M doc fields value <;> simp

/-- The two divide all documents with a value in one of the fields between them exactly if there is no
other field. -/
theorem divide_all_iff (h : Opposed own fields value equal contrary) :
    (∀ M doc, (∃ field ∈ fields, doc field ≠ []) → holds M doc equal = !holds M doc contrary) ↔
      ∀ field ∈ fields, field = own := by
  constructor
  · intro hall field hfield
    by_contra hne
    -- A document with some value in the other field alone, where no values compare.
    let M : Matching := ⟨fun _ _ _ => false, fun _ => [], fun _ _ _ => false⟩
    let doc : Indexed := fun name => if name = field then [.null] else []
    have hnone : isIn M doc fields value = false := by simp [isIn, Matching.hasValue, M]
    have hdivided := (h.divides_iff M doc).mp (hall M doc ⟨field, hfield, by simp [doc]⟩)
    rw [hnone] at hdivided
    simp [doc, Ne.symm hne] at hdivided
  · rintro hsame M doc ⟨field, hfield, hdoc⟩
    rw [hsame field hfield] at hdoc
    exact (h.divides_iff M doc).mpr (.inl hdoc)

end Opposed

end Clause

namespace Deployment

variable (d : Deployment σ) {p : Property} {item : Item} {depth : Option Int}

/-- The value that a plain condition compares with is known from then on, if there is one. -/
theorem exists_arrayValue (p : Property) (hplain : item.isPlainCondition .eq = true) (w : World σ) :
    ∃ (r : Except Failure Json) (c : Catalog),
      (arrayValue (Field.ofProperty p) item .eq).outcome w =
        (r.map fun value => (item.arrayOf p, value), { w with catalog := c }) ∧
      w.catalog.Grows c ∧ item.asked? c = r.toOption ∧ (∀ value, r = .ok value → Clause.IsPlain value) ∧
      ((∃ value, r = .ok value) ↔ ∀ t ∈ item.times, ∃ x, TimeOf.dayNumber t = .ok x) := by
  by_cases hknown : ∀ other ∈ item.mentions, w.catalog.Knows other
  · obtain ⟨r, hr, hasked, hvalue, hday⟩ := outcome_arrayValue (p := p) hplain hknown
    exact ⟨r, w.catalog, hr, .refl _, hasked, hvalue, hday⟩
  · cases item with
    | page e =>
        have hnumber : (w.catalog.number (.entity e)).2.numberOf? (.entity e) =
            some (w.catalog.number (.entity e)).1 := w.catalog.get?_number (.entity e)
        refine ⟨.ok (.int (w.catalog.number (.entity e)).1), (w.catalog.number (.entity e)).2, rfl,
          w.catalog.grows_number _, ?_, ?_, by simp [Item.times]⟩
        · simp [Item.asked?, hnumber, Except.toOption]
        · rintro _ ⟨⟩
          exact Clause.isPlain_int _
    | text | uri | number | boolean | time | coordinate | area =>
        exact absurd (by simp [Item.mentions]) hknown

/-- What a plain condition looks at, read off the catalog at the end. -/
theorem exists_aim_reach (depth : Option Int) (hplain : item.isPlainCondition .eq = true)
    (hday : ∀ t ∈ item.times, ∃ x, TimeOf.dayNumber t = .ok x) (w : World σ) : ∃ n lower value c,
    (d.aim p depth item .eq).outcome w =
        (.ok ⟨Field.group n, lower, item.arrayOf p, value⟩, { w with catalog := c }) ∧
      w.catalog.Grows c ∧ c.numberOf? (.property p) = some n ∧
      c.numbersOf (c.reach (.property p) (d.depthOf depth)) = n :: lower ∧
      item.asked? c = some value ∧ Clause.IsPlain value := by
  obtain ⟨lower, c, hsite, hgrows, hown, hknown, hnumbers⟩ := d.exists_propertySite_reach p depth w
  obtain ⟨r, c', hvalue, hgrows', hasked, hisPlain, hok⟩ :=
    exists_arrayValue p hplain { w with catalog := c }
  obtain ⟨value, rfl⟩ := hok.mpr hday
  have hown' := hgrows'.numbers _ _ hown
  refine ⟨_, lower, value, c', ?_, hgrows.trans hgrows', hown', ?_, hasked, hisPlain value rfl⟩
  · unfold aim
    rw [outcome_bind_of_ok hsite, outcome_bind_of_ok hvalue]
    rfl
  · unfold Catalog.reach
    rw [Catalog.numbersOf_cons hown', hgrows'.lower_eq, hgrows'.numbersOf_eq hknown, hnumbers]

/-- A plain condition is opposed to its contrary. -/
theorem opposed_whole (n : Int) (lower : List Int) (array : String) {value : Json}
    (hvalue : Clause.IsPlain value) :
    let clause := Clause.term (Field.inGroup (Field.group n) array) value
    Clause.Opposed (Field.inGroup (Field.group n) array)
      ((n :: lower).map fun m => Field.inGroup (Field.group m) array) value
      (Condition.Matched.whole ⟨clause, array, value, false, true⟩ (Field.group n) lower)
      (Condition.Matched.whole ⟨clause, array, value, true, false⟩ (Field.group n) lower) := by
  have hover := fun M doc => Clause.holds_overHierarchy M doc (Clause.ofGroup_term array hvalue) n lower
  simp only [Clause.holds_term] at hover
  constructor <;> intro M doc <;> simp [Condition.Matched.whole, Condition.Matched.occur, hover,
    Clause.isIn, Function.comp_def]

theorem hasComparable_eq_isIn (M : Matching) (c : Catalog) (doc : Indexed) (p : Property) (depth : Option Int)
    {value : Json} (hvalue : item.asked? c = some value) :
    Description.hasComparable M c doc p depth item .eq =
      Clause.isIn M doc (c.fields p depth (item.arrayOf p)) value := by
  unfold Description.hasComparable Clause.isIn Matching.hasValue
  rw [hvalue]
  rfl

/-- The query for a value of a property and the query against it, whatever lies below the property. Both
fail for a time that cannot be compared or written, and otherwise neither does. Of the documents with a
value of the property or of one below it, exactly those are selected by one of the two that have a value of
the property itself, or the value that is asked for. So the two divide all of these documents between them
exactly if nothing but the property counts. -/
theorem compile_absent (d : Deployment σ) {p : Property} (hdirect : p.inverse = false) {item : Item}
    (hplain : item.isPlainCondition .eq = true) (isMember : Bool) (named : Option Property)
    (depth : Option Int) (w : World σ) :
    let compiled (c : Comparator) :=
      (d.compile isMember (.someProperty p (.value item c named) depth)).outcome w
    ((∀ t ∈ item.times, Description.IsUsable d.settings.query t) →
      ∃ n equal contrary progress progress' u,
        let own := Field.inGroup (Field.group n) (item.arrayOf p)
        let fields := u.catalog.fields p (d.depthOf depth) (item.arrayOf p)
        compiled .eq = (.ok (some equal, progress), u) ∧
        compiled .neq = (.ok (some contrary, progress'), u) ∧
        u.catalog.numberOf? (.property p) = some n ∧
        (∀ M doc, Clause.holds M doc equal =
          Description.hasComparable M u.catalog doc p (d.depthOf depth) item .eq) ∧
        (∀ M doc, Clause.holds M doc equal = !Clause.holds M doc contrary ↔
          doc own ≠ [] ∨ Description.hasComparable M u.catalog doc p (d.depthOf depth) item .eq = true) ∧
        ((∀ M doc, (∃ field ∈ fields, doc field ≠ []) →
          Clause.holds M doc equal = !Clause.holds M doc contrary) ↔ ∀ field ∈ fields, field = own)) ∧
    ((¬ ∀ t ∈ item.times, Description.IsUsable d.settings.query t) →
      ∃ e e', (compiled .eq).1 = .error e ∧ (compiled .neq).1 = .error e') := by
  have hportrait (c : Comparator) :
      (∃ ms, (Description.someProperty p (.value item c named) depth).portrait = .ok ms) ↔
        ∀ t ∈ item.times, ∃ s, Time.label t = .ok s := Description.isOk_portrait _
  intro compiled
  refine ⟨fun husable => ?_, fun hunusable => ?_⟩
  · obtain ⟨hlabel, hday⟩ := usable_iff.mpr husable
    obtain ⟨n, lower, value, c, haim, -, hnumber, hnumbers, hasked, hvalue⟩ :=
      d.exists_aim_reach depth hplain hday w
    have heq : d.conditionAt p item .eq ⟨Field.group n, lower, item.arrayOf p, value⟩ =
        .ok ⟨Clause.term (Field.inGroup (Field.group n) (item.arrayOf p)) value, item.arrayOf p, value,
          false, true⟩ := ofProperty_eq _ _ _ _ _ value hplain
    have hneq : d.conditionAt p item .neq ⟨Field.group n, lower, item.arrayOf p, value⟩ =
        .ok ⟨Clause.term (Field.inGroup (Field.group n) (item.arrayOf p)) value, item.arrayOf p, value,
          true, false⟩ := by
      cases item <;> first | rfl | simp [Item.isPlainCondition] at hplain
    obtain ⟨progress, hequal⟩ := d.outcome_compile_value hdirect isMember named
      (fun hlog => (hportrait .eq).mpr (hlabel hlog)) haim heq
    obtain ⟨progress', hcontrary⟩ := d.outcome_compile_value hdirect isMember named
      (fun hlog => (hportrait .neq).mpr (hlabel hlog)) (d.aim_neq.symm ▸ haim) hneq
    have hopposed := opposed_whole n lower (item.arrayOf p) hvalue
    have hfields : c.fields p (d.depthOf depth) (item.arrayOf p) =
        (n :: lower).map fun m => Field.inGroup (Field.group m) (item.arrayOf p) := by
      unfold Catalog.fields
      rw [hnumbers]
    rw [← hfields] at hopposed
    refine ⟨n, _, _, progress, progress', _, hequal, hcontrary, hnumber, fun M doc => ?_,
      fun M doc => ?_, hopposed.divide_all_iff⟩
    · rw [hopposed.equal, hasComparable_eq_isIn M c doc p _ hasked]
    · rw [hopposed.divides_iff, hasComparable_eq_isIn M c doc p _ hasked]
  · obtain ⟨e, he⟩ := d.compile_value_unusable p isMember item .eq named depth w hunusable
    obtain ⟨e', he'⟩ := d.compile_value_unusable p isMember item .neq named depth w hunusable
    exact ⟨e, e', he, he'⟩

private def capitalStore : Deployment Unit where
  settings := {}
  client := ⟨fun _ s => (.error .connection, s)⟩
  cache := {}
  queue := {}

private def isCity : Property := { key := "Is_city", valueType := .boolean }

private def isCapital : Property := { key := "Is_capital", valueType := .boolean }

/-- What is said of capitals is said of cities. -/
private def capitalWorld : World Unit where
  engine := ()
  catalog := { next := 1, hierarchy := [((Numbered.property isCity).key, [.property isCapital])] }

/-- What is known to be no capital is neither among the cities nor among those that are known to be none. -/
theorem compile_absent_capital :
    isCity.inverse = false ∧ (Item.boolean true).isPlainCondition .eq = true ∧
      (∀ t ∈ (Item.boolean true).times, Description.IsUsable capitalStore.settings.query t) ∧
      ∃ equal contrary progress progress' u,
        (capitalStore.compile false (.someProperty isCity (.value (.boolean true) .eq none) none)).outcome
          capitalWorld = (.ok (some equal, progress), u) ∧
        (capitalStore.compile false (.someProperty isCity (.value (.boolean true) .neq none) none)).outcome
          capitalWorld = (.ok (some contrary, progress'), u) ∧
        let doc : Indexed := fun field => if field = "P:2.booField" then [.bool false] else []
        u.catalog.fields isCity none "booField" = ["P:1.booField", "P:2.booField"] ∧
        Clause.holds Archive.base doc equal = false ∧ Clause.holds Archive.base doc contrary = false := by
  have htimes : ∀ t ∈ (Item.boolean true).times, Description.IsUsable capitalStore.settings.query t := by
    simp [Item.times]
  obtain ⟨n, equal, contrary, progress, progress', u, hequal, hcontrary, hnumber, hholds, hdivides, -⟩ :=
    (compile_absent capitalStore (rfl : isCity.inverse = false)
      (rfl : (Item.boolean true).isPlainCondition .eq = true) false none none capitalWorld).1 htimes
  have hu : ((capitalStore.compile false
      (.someProperty isCity (.value (.boolean true) .eq none) none)).outcome capitalWorld).2 = u := congrArg Prod.snd hequal
  have hfields : u.catalog.fields isCity none "booField" = ["P:1.booField", "P:2.booField"] := by
    rw [← hu]
    rfl
  let doc : Indexed := fun field => if field = "P:2.booField" then [.bool false] else []
  have hnone : Description.hasComparable Archive.base u.catalog doc isCity (capitalStore.depthOf none)
      (.boolean true) .eq = false := by
    rw [hasComparable_eq_isIn Archive.base u.catalog doc isCity _ rfl]
    show Clause.isIn _ _ (u.catalog.fields isCity none "booField") _ = false
    rw [hfields]
    decide
  have hown : Field.inGroup (Field.group n) "booField" = "P:1.booField" := by
    have hone : u.catalog.numberOf? (.property isCity) = some 1 := by
      rw [← hu]
      rfl
    rw [← Option.some.inj (hone.symm.trans hnumber)]
    rfl
  have hequal' : Clause.holds Archive.base doc equal = false := (hholds _ doc).trans hnone
  refine ⟨rfl, rfl, htimes, equal, contrary, progress, progress', u, hequal, hcontrary, hfields, hequal', ?_⟩
  have hneither := mt (hdivides Archive.base doc).mp (not_or.mpr ⟨?_, Bool.eq_false_iff.mp hnone⟩)
  · rw [hequal'] at hneither
    simpa using hneither
  · show ¬ doc (Field.inGroup (Field.group n) "booField") ≠ []
    rw [hown]
    simp [doc]

end Deployment

end FactIndex
