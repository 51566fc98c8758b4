import FactIndex.Proofs.Compile.Direct

/-!
# Equality and its contrary

A condition that asks for a value and one that excludes it should tell the documents with the property
apart. They do, except for texts and addresses: equality compares these with the values as a whole, which
lie in a field of their own, while the contrary looks for the value among the words.

## Main definitions

* `Clause.SameTest`: two clauses that look for the same value in the same field.
* `Item.isWritten`: the items whose values are stored both as a whole and as words.
* `Clause.TellsApart`: two queries that divide the documents with a field between them.
* `Deployment.compile_contrary`: when the two queries are complements of each other.
-/

namespace FactIndex

open FactIndex.Calendar FactIndex.Effect

variable {σ : Type}

/-- Texts and addresses, whose values are stored both as a whole and as words. -/
def Item.isWritten : Item → Bool
  | .text _ | .uri _ => true
  | _ => false

namespace Clause

/-- Two clauses are the same, but for a value that the one gives as a list of one. -/
def SameTest (a b : Json) : Prop :=
  a = b ∨ ∃ field value, a = terms field (.arr [value]) ∧ b = term field value

theorem SameTest.holds_eq {a b : Json} (h : SameTest a b) (M : Matching) (doc : Indexed) :
    holds M doc a = holds M doc b := by
  obtain rfl | ⟨field, value, rfl, rfl⟩ := h
  · rfl
  · simp

theorem term_injective {field field' : String} {value value' : Json}
    (h : term field value = term field' value') : field = field' ∧ value = value' := by
  simpa [term, Json.single] using h

/-- The values as a whole are looked for in another field than the words. -/
theorem not_sameTest_keyword (field : String) (s value : Json) :
    ¬ SameTest (term (field ++ ".keyword") s) (term field value) := by
  rintro (h | ⟨_, _, h, -⟩)
  · have hlength := congrArg String.length (term_injective h).1
    rw [String.length_append] at hlength
    exact absurd hlength (by simp)
  · simp [term, terms, Json.single] at h

/-- Of two queries, every document with the field is selected by one and not by the other. -/
def TellsApart (field : String) (a b : Json) : Prop :=
  ∀ (M : Matching) (doc : Indexed), doc field ≠ [] → holds M doc a = !holds M doc b

/-- Requiring something, and excluding it where there is a value at all. -/
theorem tellsApart_of_sameTest {occur : Occur} (hoccur : occur = .must ∨ occur = .filter)
    (field : String) {required excluded : Json} (h : SameTest required excluded) :
    TellsApart field (compound occur [required])
      (compound .must [hasField field, compound .mustNot [excluded]]) := by
  intro M doc hdoc
  have hfield : (doc field).isEmpty = false := by simpa using hdoc
  obtain rfl | rfl := hoccur <;> simp [hfield, h.holds_eq M doc]

/-- A document may have a value as a whole without having it among its words. Such a document is selected
both if the whole is required and if the value is excluded from the words. -/
theorem not_tellsApart_keyword {occur : Occur} (hoccur : occur = .must ∨ occur = .filter)
    (field : String) (s value : Json) :
    ¬ TellsApart field (compound occur [term (field ++ ".keyword") s])
      (compound .must [hasField field, compound .mustNot [term field value]]) := by
  intro h
  let M : Matching := ⟨fun _ a b => a == b, fun _ => [], fun _ _ _ => false⟩
  let other : Json := if value = .null then .bool true else .null
  let doc : Indexed := fun name => if name = field then [other] else [s]
  have hother : other ≠ value := by
    intro heq
    by_cases hvalue : value = .null <;> simp [other, hvalue] at heq
    exact hvalue heq.symm
  have hname : field ++ ".keyword" ≠ field := by
    intro heq
    have hlength := congrArg String.length heq
    rw [String.length_append] at hlength
    exact absurd hlength (by simp)
  have hboth := h M doc (by simp [doc])
  obtain rfl | rfl := hoccur <;> simp [Matching.hasValue, M, doc, hname, hother] at hboth

end Clause

namespace Condition

variable {q : QuerySettings} {normalKeywords : Bool} {type : ValueType} {group array : String}

/-- What is excluded by a condition that asks for another value. -/
def excluded (field : String) : Item → Json → Json
  | .area a, _ => inBox (field ++ ".point") a
  | _, value => Clause.term field value

theorem ofProperty_neq (item : Item) (value : Json) :
    ofProperty q normalKeywords type group array item .neq value =
      .ok ⟨excluded (Field.inGroup group array) item value, array, value, true, false⟩ := by
  cases item <;> rfl

/-- Equality and its contrary look for the same unless the item is a text or an address. -/
private theorem exists_ofProperty_same {item : Item} {value : Json} (hitem : item.isWritten = false)
    (hvalue : Clause.several value = .arr [value]) :
    ∃ m, ofProperty q normalKeywords type group array item .eq value = .ok m ∧ m.negated = false ∧
      Clause.SameTest m.clause (excluded (Field.inGroup group array) item value) := by
  cases item with
  | text s | uri s => cases hitem
  | coordinate lat lon =>
      refine ⟨_, rfl, rfl, .inr ⟨Field.inGroup group array, value, ?_, rfl⟩⟩
      show Clause.terms _ value = _
      rw [Clause.terms, hvalue]
      rfl
  | page e | number x | boolean b | time t | area a => exact ⟨_, rfl, rfl, .inl rfl⟩

/-- Equality compares texts and addresses as a whole. -/
private theorem exists_ofProperty_whole {item : Item} {value : Json} (hitem : item.isWritten = true)
    (htext : q.textIgnoresCase = false) (huri : q.uriIgnoresCase = false) :
    ∃ m s, ofProperty q normalKeywords type group array item .eq value = .ok m ∧ m.negated = false ∧
      m.clause = Clause.term (Field.inGroup group array ++ ".keyword") (.str s) := by
  cases item with
  | text s =>
      refine ⟨_, if type = .keyword ∧ normalKeywords then Field.keyword s else s, rfl, ?_⟩
      unfold textEquals
      by_cases htype : type = .keyword <;> simp [htype, htext]
  | uri s =>
      refine ⟨_, value.plainText, rfl, ?_⟩
      simp [uriEquals, huri]
  | page e | number x | boolean b | time t | coordinate lat lon | area a => cases hitem

/-- What equality requires, compared with what its contrary excludes. -/
theorem exists_ofProperty_eq {item : Item} {value : Json} (htext : q.textIgnoresCase = false)
    (huri : q.uriIgnoresCase = false) (hvalue : Clause.several value = .arr [value]) :
    ∃ m, ofProperty q normalKeywords type group array item .eq value = .ok m ∧ m.negated = false ∧
      (item.isWritten = false →
        Clause.SameTest m.clause (excluded (Field.inGroup group array) item value)) ∧
      (item.isWritten = true →
        excluded (Field.inGroup group array) item value =
          Clause.term (Field.inGroup group array) value ∧
        ∃ s, m.clause = Clause.term (Field.inGroup group array ++ ".keyword") (.str s)) := by
  cases hwritten : item.isWritten with
  | false =>
      obtain ⟨m, hm, hpositive, hsame⟩ := exists_ofProperty_same hwritten hvalue
      exact ⟨m, hm, hpositive, fun _ => hsame, nofun⟩
  | true =>
      obtain ⟨m, s, hm, hpositive, hclause⟩ := exists_ofProperty_whole hwritten htext huri
      refine ⟨m, hm, hpositive, nofun, fun _ => ⟨?_, s, hclause⟩⟩
      cases item with
      | text s | uri s => rfl
      | page e | number x | boolean b | time t | coordinate lat lon | area a => cases hwritten

end Condition

namespace Deployment

variable (d : Deployment σ) {p : Property} {item : Item} {c : Comparator} {depth : Option Int}

/-- A property with nothing below it is where its number says. -/
theorem outcome_propertySite_of_leaf {w : World σ}
    (hlower : w.catalog.lower (.property p) (d.depthOf depth) = []) :
    (d.propertySite p depth).outcome w = (.ok (Field.group (w.catalog.number (.property p)).1, []),
      { w with catalog := (w.catalog.number (.property p)).2 }) := by
  let numbered : World σ := { w with catalog := (w.catalog.number (.property p)).2 }
  have hnumber : (numberOf (.property p)).outcome w =
      (.ok (w.catalog.number (.property p)).1, numbered) := rfl
  have hmembers : numbered.catalog.lower (.property p) (d.depthOf depth) = [] := by
    rw [← hlower]
    unfold Catalog.lower Catalog.members
    rw [(w.catalog.grows_number (.property p)).hierarchy]
  have hbelow := @outcome_below _ numbered (.property p) (d.depthOf depth) (by simp [hmembers])
  unfold propertySite
  rw [outcome_bind_of_ok hnumber, outcome_bind_of_ok hbelow, hmembers]
  rfl

/-- The value that is compared is a single one. Only a time may be too far off to be compared. -/
theorem arrayValue_cases (array : String) (item : Item) (c : Comparator) (w : World σ) :
    (∃ target u, (arrayValue array item c).outcome w = (.ok target, u) ∧
      Clause.several target.2 = .arr [target.2] ∧
      ∀ t ∈ item.times, ∃ x, TimeOf.dayNumber t = .ok x) ∨
    ∃ e t, item = .time t ∧ (arrayValue array item c).outcome w = (.error e, w) ∧
      ¬ ∃ x, TimeOf.dayNumber t = .ok x := by
  cases item with
  | page e =>
      left
      unfold arrayValue
      dsimp only
      split
      · exact ⟨_, _, rfl, rfl, by simp [Item.times]⟩
      · exact ⟨_, _, rfl, rfl, by simp [Item.times]⟩
  | time t =>
      have hvalue : (arrayValue array (.time t) c).outcome w =
          ((Json.float <$> TimeOf.dayNumber t).map fun value => (array, value), w) := by
        show (Effect.ofExcept (Json.float <$> TimeOf.dayNumber t) >>= _).outcome w = _
        rw [outcome_bind, outcome_ofExcept]
        cases TimeOf.dayNumber t <;> rfl
      rw [hvalue]
      cases hday : TimeOf.dayNumber t with
      | ok x => exact .inl ⟨_, _, rfl, rfl, by simp [Item.times, hday]⟩
      | error e => exact .inr ⟨_, t, rfl, rfl, by simp [hday]⟩
  | text s | uri s | number x | boolean b | coordinate lat lon | area a =>
      exact .inl ⟨_, _, rfl, rfl, by simp [Item.times]⟩

/-- Equality and its contrary look at the same. -/
theorem aim_neq : d.aim p depth item .neq = d.aim p depth item .eq := by
  cases item <;> rfl

/-- What a condition on a property with nothing below it looks at. -/
theorem aim_cases (item : Item) (c : Comparator) {w : World σ}
    (hlower : w.catalog.lower (.property p) (d.depthOf depth) = []) :
    (∃ group array value u, (d.aim p depth item c).outcome w = (.ok ⟨group, [], array, value⟩, u) ∧
      Clause.several value = .arr [value] ∧ ∀ t ∈ item.times, ∃ x, TimeOf.dayNumber t = .ok x) ∨
    ∃ e t u, item = .time t ∧ (d.aim p depth item c).outcome w = (.error e, u) ∧
      ¬ ∃ x, TimeOf.dayNumber t = .ok x := by
  have hsite := d.outcome_propertySite_of_leaf hlower
  unfold aim
  rw [outcome_bind_of_ok hsite]
  rcases arrayValue_cases (Field.ofProperty p) item c
    { w with catalog := (w.catalog.number (.property p)).2 } with
      ⟨target, u, htarget, hvalue, hday⟩ | ⟨e, t, rfl, htarget, hday⟩
  · rw [outcome_bind_of_ok htarget]
    exact .inl ⟨_, _, _, _, rfl, hvalue, hday⟩
  · rw [outcome_bind_of_error htarget]
    exact .inr ⟨e, t, _, rfl, rfl, hday⟩

/-- There is no query for a time that cannot be compared, or cannot be written where visits are recorded. -/
theorem compile_value_unusable (p : Property) (isMember : Bool) (item : Item) (c : Comparator)
    (named : Option Property) (depth : Option Int) (w : World σ)
    (h : ¬ ∀ t ∈ item.times, Description.IsUsable d.settings.query t) :
    ∃ e, ((d.compile isMember (.someProperty p (.value item c named) depth)).outcome w).1 = .error e := by
  have hportrait : (∃ ms, (Description.someProperty p (.value item c named) depth).portrait = .ok ms) ↔
      ∀ t ∈ item.times, ∃ s, Time.label t = .ok s := Description.isOk_portrait _
  rw [← usable_iff, not_and_or] at h
  by_cases hshown : d.settings.query.nodeLog = true → ∀ t ∈ item.times, ∃ s, Time.label t = .ok s
  · obtain ⟨lower, u, hsite⟩ := d.exists_propertySite_number p depth w
    rcases arrayValue_cases (Field.ofProperty p) item c.normal u with
      ⟨-, -, -, -, hday⟩ | ⟨e, t, -, htarget, -⟩
    · exact absurd hday (h.resolve_left (not_not_intro hshown))
    · refine ⟨e, congrArg Prod.fst (d.compile_value_error (u := u) isMember
        (fun hlog => hportrait.mpr (hshown hlog)) ?_)⟩
      unfold aim
      rw [outcome_bind_of_ok hsite, outcome_bind_of_error htarget]
  · rw [Classical.not_imp] at hshown
    exact d.compile_error_of_portrait hshown.1 (mt hportrait.mp hshown.2) isMember w

/-- The query for a value and the query against it, on a property with nothing below it. Both fail for a
time that cannot be compared or written, and otherwise neither does. The contrary excludes what equality
requires exactly if the item is neither a text nor an address, and exactly then the two queries tell all
documents with the property apart. -/
theorem compile_contrary (d : Deployment σ) (htext : d.settings.query.textIgnoresCase = false)
    (huri : d.settings.query.uriIgnoresCase = false) {p : Property} (hdirect : p.inverse = false)
    (isMember : Bool) (item : Item) (named : Option Property) (depth : Option Int) (w : World σ)
    (hlower : w.catalog.lower (.property p) (d.depthOf depth) = []) :
    let compiled (c : Comparator) :=
      (d.compile isMember (.someProperty p (.value item c named) depth)).outcome w
    ((∀ t ∈ item.times, Description.IsUsable d.settings.query t) →
      ∃ occur field required excluded progress progress' u,
        let equal := Clause.compound occur [required]
        let contrary := Clause.compound .must
          [Clause.hasField field, Clause.compound .mustNot [excluded]]
        (occur = .must ∨ occur = .filter) ∧
        compiled .eq = (.ok (some equal, progress), u) ∧
        compiled .neq = (.ok (some contrary, progress'), u) ∧
        (Clause.SameTest required excluded ↔ item.isWritten = false) ∧
        (Clause.TellsApart field equal contrary ↔ item.isWritten = false)) ∧
    ((¬ ∀ t ∈ item.times, Description.IsUsable d.settings.query t) →
      ∃ e e', (compiled .eq).1 = .error e ∧ (compiled .neq).1 = .error e') := by
  have hportrait (c : Comparator) :
      (∃ ms, (Description.someProperty p (.value item c named) depth).portrait = .ok ms) ↔
        ∀ t ∈ item.times, ∃ s, Time.label t = .ok s := Description.isOk_portrait _
  intro compiled
  constructor
  · intro husable
    obtain ⟨hlabel, hday⟩ := usable_iff.mpr husable
    rcases d.aim_cases item .eq hlower with
      ⟨group, array, value, u, haim, hvalue, -⟩ | ⟨e, t, u, rfl, -, hno⟩
    · have hneq : d.conditionAt p item .neq ⟨group, [], array, value⟩ =
          .ok ⟨Condition.excluded (Field.inGroup group array) item value, array, value, true, false⟩ :=
        Condition.ofProperty_neq item value
      obtain ⟨m, hm, hpositive, hsame, hwhole⟩ := @Condition.exists_ofProperty_eq d.settings.query
        d.settings.writer.normalKeywords p.valueType group array item value htext huri hvalue
      obtain ⟨progress, hequal⟩ := d.outcome_compile_value hdirect isMember named
        (fun hlog => (hportrait .eq).mpr (hlabel hlog)) haim hm
      obtain ⟨progress', hcontrary⟩ := d.outcome_compile_value hdirect isMember named
        (fun hlog => (hportrait .neq).mpr (hlabel hlog)) (d.aim_neq.symm ▸ haim) hneq
      have hoccur : m.occur = .must ∨ m.occur = .filter := by
        unfold Condition.Matched.occur
        rw [hpositive]
        cases m.isFilter <;> simp
      have hwhole' : m.whole group [] = Clause.compound m.occur [m.clause] := by
        unfold Condition.Matched.whole
        rw [hpositive]
        rfl
      refine ⟨m.occur, Field.inGroup group array, m.clause, _, progress, progress', u, hoccur,
        hwhole' ▸ hequal, hcontrary, ?_, ?_⟩
      · refine ⟨fun h => Bool.eq_false_iff.mpr fun hwritten => ?_, hsame⟩
        obtain ⟨hexcluded, s, hclause⟩ := hwhole hwritten
        rw [hexcluded, hclause] at h
        exact Clause.not_sameTest_keyword _ _ _ h
      · refine ⟨fun h => Bool.eq_false_iff.mpr fun hwritten => ?_,
          fun hwritten => Clause.tellsApart_of_sameTest hoccur _ (hsame hwritten)⟩
        obtain ⟨hexcluded, s, hclause⟩ := hwhole hwritten
        rw [hexcluded, hclause] at h
        exact Clause.not_tellsApart_keyword hoccur _ _ _ h
    · exact absurd (hday t (by simp [Item.times])) hno
  · intro hunusable
    obtain ⟨e, he⟩ := d.compile_value_unusable p isMember item .eq named depth w hunusable
    obtain ⟨e', he'⟩ := d.compile_value_unusable p isMember item .neq named depth w hunusable
    exact ⟨e, e', he, he'⟩

private def nameStore : Deployment Unit where
  settings := {}
  client := ⟨fun _ s => (.error .connection, s)⟩
  cache := {}
  queue := {}

private def nameWorld : World Unit := { engine := (), catalog := { next := 1 } }

private def name : Property := { key := "Name", valueType := .text }

theorem compile_contrary_name :
    nameStore.settings.query.textIgnoresCase = false ∧
      nameStore.settings.query.uriIgnoresCase = false ∧ name.inverse = false ∧
      nameWorld.catalog.lower (.property name) (nameStore.depthOf none) = [] ∧
      (∀ t ∈ (Item.text "Berlin").times, Description.IsUsable nameStore.settings.query t) ∧
      ∃ occur field required excluded progress progress' u,
        let equal := Clause.compound occur [required]
        let contrary := Clause.compound .must
          [Clause.hasField field, Clause.compound .mustNot [excluded]]
        (nameStore.compile false (.someProperty name (.value (.text "Berlin") .eq none) none)).outcome
          nameWorld = (.ok (some equal, progress), u) ∧
        (nameStore.compile false (.someProperty name (.value (.text "Berlin") .neq none) none)).outcome
          nameWorld = (.ok (some contrary, progress'), u) ∧
        ¬ Clause.SameTest required excluded ∧ ¬ Clause.TellsApart field equal contrary := by
  have htimes : ∀ t ∈ (Item.text "Berlin").times, Description.IsUsable nameStore.settings.query t := by
    simp [Item.times]
  obtain ⟨occur, field, required, excluded, progress, progress', u, -, hequal, hcontrary, hsame,
    happart⟩ := (compile_contrary nameStore rfl rfl (rfl : name.inverse = false) false (.text "Berlin")
      none none nameWorld rfl).1 htimes
  exact ⟨rfl, rfl, rfl, rfl, htimes, occur, field, required, excluded, progress, progress', u, hequal,
    hcontrary, mt hsame.mp (by decide), mt happart.mp (by decide)⟩

end Deployment

end FactIndex
