import FactIndex.Proofs.Compile.Contrary

/-!
# Bounds on the values of a property

A bound on the values of a property can be stated in two ways: by a condition that names the property, as a
member of a conjunction, and by a condition within the property. Both ask for a range, and each has rules of
its own for the field that is compared and the value that it is compared with. The rules agree on numbers,
truth values and times. They do not agree on pages and texts, which either way compares as a whole exactly
where the other does not, nor on addresses with something encoded in them.

## Main definitions

* `Bound`, `Bound.clause`: a field with the value that bounds it, and the range that they make.
* `Bound.ofMember`, `Bound.ofInner`: the two sets of rules.
* `Item.IsBoundedAlike`: the items on which they agree.
* `Deployment.compileNode_bounds`: which ranges the two conditions are compiled to.
-/

namespace FactIndex

open FactIndex.Calendar FactIndex.Compiling FactIndex.Effect FactIndex.Text

variable {σ : Type}

/-- A field, and the value that bounds it. -/
structure Bound where
  field : String
  value : Json
deriving DecidableEq

namespace Item

/-- Whether an item is a text. -/
def isText : Item → Bool
  | .text _ => true
  | _ => false

/-- Whether an item is a box on the map, of which there are no bounds. -/
def isArea : Item → Bool
  | .area _ => true
  | _ => false

/-- The form in which an item is searched within a property: addresses are decoded. -/
def innerValue : Item → Except Failure Json
  | .uri s => .ok (.str (percentDecode s))
  | item => item.searchValue

/-- The items on which the two sets of rules agree. -/
def IsBoundedAlike : Item → Prop
  | .page _ | .text _ => False
  | .uri s => percentDecode s = s
  | _ => True

end Item

namespace Bound

/-- The range that a bound makes. -/
def clause (mark : String) (b : Bound) : Json := .single "range" (.single b.field (.single mark b.value))

theorem range_eq {c : Comparator} {mark : String} (h : c.bound? = some mark) (b : Bound) :
    Clause.range b.field b.value c = .ok (b.clause mark) := by
  unfold Clause.range
  rw [h]
  rfl

/-- The rules for a condition that names the property: pages are compared as a whole. -/
def ofMember (field : String) (item : Item) : Except Failure Bound :=
  item.searchValue.map (Bound.mk (if item.isPage then field ++ ".keyword" else field))

/-- The rules for a condition within the property: texts are compared as a whole. -/
def ofInner (field : String) (item : Item) : Except Failure Bound :=
  item.innerValue.map (Bound.mk (if item.isText then field ++ ".keyword" else field))

/-- There is a bound by either set of rules, unless the item is a time without a day number. -/
theorem exists_bounds (field : String) {item : Item}
    (hday : ∀ t ∈ item.times, ∃ x, TimeOf.dayNumber t = .ok x) :
    ∃ b b', ofMember field item = .ok b ∧ ofInner field item = .ok b' ∧ (b = b' ↔ item.IsBoundedAlike) := by
  cases item with
  | page e => exact ⟨_, _, rfl, rfl, by simp [Item.IsBoundedAlike, Item.isPage, Item.isText]⟩
  | text s =>
      have hfield : field ++ ".keyword" ≠ field := by
        intro h
        have hlength := congrArg String.length h
        rw [String.length_append] at hlength
        exact absurd hlength (by simp)
      exact ⟨_, _, rfl, rfl, iff_of_false (fun h => hfield (Bound.mk.inj h).1.symm) id⟩
  | uri s =>
      refine ⟨_, _, rfl, rfl, ?_⟩
      simp only [Item.isPage, Item.isText, Bool.false_eq_true, if_false, Bound.mk.injEq, Json.str.injEq,
        true_and]
      exact eq_comm
  | time t =>
      obtain ⟨x, hx⟩ := hday t (List.mem_singleton.mpr rfl)
      have hbound : (Item.time t).searchValue.map (Bound.mk field) = .ok ⟨field, .float x⟩ := by
        simp [Item.searchValue, hx, Except.map]
      exact ⟨_, _, hbound, hbound, by simp [Item.IsBoundedAlike]⟩
  | number x | boolean b | coordinate lat lon | area a =>
      exact ⟨_, _, rfl, rfl, by simp [Item.IsBoundedAlike, Item.isPage, Item.isText]⟩

/-- Neither set of rules has a bound for a time without a day number. -/
theorem exists_errors (field : String) {item : Item}
    (hday : ¬ ∀ t ∈ item.times, ∃ x, TimeOf.dayNumber t = .ok x) :
    ∃ e, ofMember field item = .error e ∧ ofInner field item = .error e := by
  cases item with
  | time t =>
      cases hx : TimeOf.dayNumber t with
      | ok x => exact absurd (by simp [Item.times, hx]) hday
      | error e =>
          have hbound : (Item.time t).searchValue.map (Bound.mk field) = .error e := by
            simp [Item.searchValue, hx, Except.map]
          exact ⟨e, hbound, hbound⟩
  | page e | text s | uri s | number x | boolean b | coordinate lat lon | area a =>
      exact absurd (by simp [Item.times]) hday

end Bound

/-! ## Conditions that ask for a range -/

namespace Comparator

variable {c : Comparator}

/-- A comparator that bounds a range has a mark for that, and neither stands for another comparator nor asks
for equality nor negates. -/
theorem bounds_of_isRange (h : c.isRange = true) :
    (∃ mark, c.bound? = some mark) ∧ c.normal = c ∧ c.isEquality = false ∧ c.isNegated = false := by
  cases c with
  | less | greater | leq | geq => exact ⟨⟨_, rfl⟩, rfl, rfl, rfl⟩
  | eq | neq | like | nlike | primLike | primNlike => cases h

end Comparator

namespace Condition

variable {item : Item} {c : Comparator}

theorem ofEntity_range (q : QuerySettings) (hrange : c.isRange = true) (harea : item.isArea = false)
    (field : String) (value : Json) : ofEntity q field item c value =
      (Clause.range (if item.isPage then field ++ ".keyword" else field) value c).map fun clause =>
        (clause, false) := by
  cases item with
  | area a => cases harea
  | page e | text s | uri s | number x | boolean b | time t | coordinate lat lon =>
      cases c with
      | less | greater | leq | geq => rfl
      | eq | neq | like | nlike | primLike | primNlike => cases hrange

theorem ofProperty_range (q : QuerySettings) (hrange : c.isRange = true) (harea : item.isArea = false)
    (normalKeywords : Bool) (type : ValueType) (group array : String) (value : Json) :
    ofProperty q normalKeywords type group array item c value = bounded group array item c value := by
  cases item with
  | area a => cases harea
  | page e | text s | uri s | number x | boolean b | time t | coordinate lat lon =>
      cases c with
      | less | greater | leq | geq => rfl
      | eq | neq | like | nlike | primLike | primNlike => cases hrange

end Condition

namespace Deployment

variable (d : Deployment σ) {p : Property} {item : Item} {c : Comparator} {mark : String} {w : World σ}

/-- What a range is compared with on its own: the value that is searched. -/
theorem outcome_siteValue_range (hrange : c.isRange = true) (site : Site) (item : Item) (w : World σ) :
    (siteValue site item c).outcome w = (item.searchValue.map fun value => (site.field, value), w) := by
  have hequality := (Comparator.bounds_of_isRange hrange).2.2.1
  cases item with
  | page e =>
      unfold siteValue
      simp only [hequality]
      rfl
  | text s | uri s | number x | boolean b | coordinate lat lon | area a => rfl
  | time t =>
      show (ofExcept (Item.time t).searchValue >>= _).outcome w = _
      rw [outcome_bind, outcome_ofExcept]
      cases (Item.time t).searchValue <;> rfl

/-- A direct property with nothing below it, named by a condition. -/
theorem outcome_namedSite_of_leaf (condition : Description) (hdirect : p.inverse = false)
    (hmembers : w.catalog.members (.property p) = []) :
    let group := Field.group (w.catalog.number (.property p)).1
    (namedSite condition p).outcome w = (.ok ⟨some (group, []), Field.inGroup group (Field.ofProperty p)⟩,
      { w with catalog := (w.catalog.number (.property p)).2 }) := by
  intro group
  let numbered : World σ := { w with catalog := (w.catalog.number (.property p)).2 }
  have hnumber : (numberOf (.property p)).outcome w = (.ok (w.catalog.number (.property p)).1, numbered) := rfl
  have hlower : numbered.catalog.lower (.property p) none = [] := by
    rw [(w.catalog.grows_number (.property p)).lower_eq]
    exact hmembers
  have hbelow := @outcome_below _ numbered (.property p) none (by simp [hlower])
  rw [hlower] at hbelow
  unfold namedSite
  rw [outcome_bind_of_ok hnumber]
  simp only [hdirect, Bool.false_eq_true, if_false]
  rw [outcome_bind_of_ok hbelow]
  rfl

/-- A range that a condition asks for by the name of a property. -/
theorem fst_entityClause_range (hdirect : p.inverse = false) (hmembers : w.catalog.members (.property p) = [])
    (hrange : c.isRange = true) (hmark : c.bound? = some mark) (harea : item.isArea = false)
    (progress : Progress) :
    ((d.entityClause true item c (some p)).outcome (w, progress)).1 =
      (Bound.ofMember (Field.inGroup (Field.group (w.catalog.number (.property p)).1) (Field.ofProperty p))
        item).map (Bound.clause mark) := by
  obtain ⟨-, hnormal, -, hpositive⟩ := Comparator.bounds_of_isRange hrange
  have hsite := outcome_namedSite_of_leaf (.value item c (some p)) hdirect hmembers
  dsimp only at hsite
  generalize Field.group (w.catalog.number (.property p)).1 = group at hsite ⊢
  generalize hu : ({ w with catalog := (w.catalog.number (.property p)).2 } : World σ) = u at hsite
  let site : Site := ⟨some (group, []), Field.inGroup group (Field.ofProperty p)⟩
  have hact : (Compiling.act (namedSite (.value item c (some p)) p)).outcome (w, progress) =
      (.ok site, (u, progress)) := by rw [outcome_act, hsite]
  have htarget := outcome_siteValue_range hrange site item u
  unfold entityClause
  rw [hnormal]
  dsimp only
  rw [outcome_bind_of_ok hact]
  cases hvalue : item.searchValue with
  | error e =>
      rw [hvalue] at htarget
      have hact' : (Compiling.act (siteValue site item c)).outcome (u, progress) = (.error e, (u, progress)) := by
        rw [outcome_act, htarget]
        rfl
      rw [fst_bind_of_error (congrArg Prod.fst hact')]
      unfold Bound.ofMember
      rw [hvalue]
      rfl
  | ok value =>
      rw [hvalue] at htarget
      have hact' : (Compiling.act (siteValue site item c)).outcome (u, progress) =
          (.ok (site.field, value), (u, progress)) := by
        rw [outcome_act, htarget]
        rfl
      rw [outcome_bind_of_ok hact']
      have hrange' := Condition.ofEntity_range d.settings.query hrange harea site.field value
      rw [Bound.range_eq hmark ⟨_, value⟩] at hrange'
      cases item with
      | area a => cases harea
      | page e | text s | uri s | number x | boolean b | time t | coordinate lat lon =>
          dsimp only [site]
          rw [outcome_bind, outcome_ofExcept, hrange', Except.map]
          dsimp only
          rw [hpositive]
          unfold Bound.ofMember
          rw [hvalue]
          rfl

/-- What a range within a property is compared with. -/
theorem outcome_arrayValue_range (hrange : c.isRange = true) (array : String) (item : Item) (w : World σ) :
    (arrayValue array item c).outcome w = (item.innerValue.map fun value => (array, value), w) := by
  have hequality := (Comparator.bounds_of_isRange hrange).2.2.1
  cases item with
  | page e =>
      unfold arrayValue
      simp only [hequality]
      rfl
  | text s | uri s | number x | boolean b | coordinate lat lon | area a => rfl
  | time t =>
      have hvalue : (Item.time t).innerValue = (Item.time t).searchValue := rfl
      show (ofExcept (Item.time t).searchValue >>= _).outcome w = _
      rw [outcome_bind, outcome_ofExcept, hvalue]
      cases (Item.time t).searchValue <;> rfl

/-- The condition that a range within a property is. -/
theorem exists_conditionAt_range (hrange : c.isRange = true) (hmark : c.bound? = some mark)
    (harea : item.isArea = false) (group : String) (lower : List Int) (value : Json) :
    ∃ m, d.conditionAt p item c ⟨group, lower, Field.ofProperty p, value⟩ = .ok m ∧
      m.clause = Bound.clause mark ⟨if item.isText then Field.inGroup group (Field.ofProperty p) ++ ".keyword"
        else Field.inGroup group (Field.ofProperty p), value⟩ ∧ m.negated = false ∧ m.isFilter = false := by
  unfold conditionAt
  rw [Condition.ofProperty_range _ hrange harea]
  have hfield : (if item.isText then Field.inGroup group (Field.ofProperty p) ++ ".keyword"
      else Field.inGroup group (Field.ofProperty p)) =
      Field.inGroup group (if item.isText then Field.ofProperty p ++ ".keyword" else Field.ofProperty p) := by
    cases item.isText <;> simp [Field.inGroup, String.append_assoc]
  rw [hfield]
  have hclause := Bound.range_eq hmark ⟨Field.inGroup group
    (if item.isText then Field.ofProperty p ++ ".keyword" else Field.ofProperty p), value⟩
  unfold Condition.bounded
  cases item with
  | area a => cases harea
  | page e | text s | uri s | number x | boolean b | time t | coordinate lat lon =>
      simp only [Item.isText, if_true, if_false, Bool.false_eq_true] at hclause ⊢
      rw [hclause]
      exact ⟨_, rfl, rfl, rfl, rfl⟩

/-- A range within a direct property with nothing below it. -/
theorem fst_compileProperty_range (hdirect : p.inverse = false)
    (hmembers : w.catalog.members (.property p) = []) (hrange : c.isRange = true)
    (hmark : c.bound? = some mark) (harea : item.isArea = false) (expand : Expansion σ) (path : List Nat)
    (named : Option Property) (depth : Option Int) (progress : Progress) :
    ((d.compileProperty expand path none p depth (.value item c named)).outcome (w, progress)).1 =
      (Bound.ofInner (Field.inGroup (Field.group (w.catalog.number (.property p)).1) (Field.ofProperty p))
        item).map fun b => some (Clause.compound .must [b.clause mark]) := by
  obtain ⟨-, hnormal, -, -⟩ := Comparator.bounds_of_isRange hrange
  have hlower : w.catalog.lower (.property p) (d.depthOf depth) = [] := by
    unfold Catalog.lower
    rw [hmembers]
    cases d.depthOf depth <;> simp [front]
  have hsite := d.outcome_propertySite_of_leaf hlower
  generalize Field.group (w.catalog.number (.property p)).1 = group at hsite ⊢
  generalize ({ w with catalog := (w.catalog.number (.property p)).2 } : World σ) = u at hsite
  have hact : (Compiling.act (d.propertySite p depth)).outcome (w, progress) =
      (.ok (group, []), (u, progress)) := by rw [outcome_act, hsite]
  have htarget := outcome_arrayValue_range hrange (Field.ofProperty p) item u
  rw [compileProperty, outcome_bind_of_ok hact]
  unfold Bound.ofInner
  cases hvalue : item.innerValue with
  | error e =>
      rw [hvalue] at htarget
      have hact' : (Compiling.act (arrayValue (Field.ofProperty p) item c)).outcome (u, progress) =
          (.error e, (u, progress)) := by
        rw [outcome_act, htarget]
        rfl
      have hclause : (d.valueClause path p (group, []) item c named).outcome (u, progress) =
          (.error e, (u, progress)) := by
        unfold valueClause propertyCondition
        dsimp only
        rw [hnormal, outcome_bind_of_error (outcome_bind_of_error hact' _)]
      rw [fst_bind_of_error (congrArg Prod.fst hclause)]
      rfl
  | ok value =>
      rw [hvalue] at htarget
      obtain ⟨m, hm, hclause, hpositive, hfilter⟩ :=
        d.exists_conditionAt_range (p := p) hrange hmark harea group [] value
      obtain ⟨progress', hvalued⟩ := d.outcome_valueClause (s := (u, progress)) hdirect path (group, []) named
        (by rw [hnormal]; exact htarget) (by rw [hnormal]; exact hm)
      rw [outcome_bind_of_ok hvalued]
      unfold Condition.Matched.whole Condition.Matched.occur
      rw [hpositive, hfilter, hclause]
      rfl

/-! ## The two conditions -/

/-- A condition that names the property, as a member of a conjunction. -/
theorem fst_compileNode_member (hdirect : p.inverse = false) (hmembers : w.catalog.members (.property p) = [])
    (hrange : c.isRange = true) (hmark : c.bound? = some mark) (harea : item.isArea = false)
    (hshown : d.settings.query.nodeLog = true → ∀ t ∈ item.times, ∃ label, Time.label t = .ok label)
    (expand : Expansion σ) (path : List Nat) (progress : Progress) :
    ((d.compileNode expand true path (.value item c (some p))).outcome (w, progress)).1 =
      (Bound.ofMember (Field.inGroup (Field.group (w.catalog.number (.property p)).1) (Field.ofProperty p))
        item).map fun b => some (b.clause mark) := by
  obtain ⟨visited, hvisit, -⟩ := d.exists_visit
    (fun hlog => (Description.isOk_portrait (.value item c (some p))).mpr (hshown hlog)) (w, progress)
  rw [compileNode, outcome_bind_of_ok hvisit, bind_pure_comp, outcome_map,
    d.fst_entityClause_range hdirect hmembers hrange hmark harea visited]
  cases Bound.ofMember _ item <;> rfl

/-- A condition within the property. -/
theorem fst_compileNode_inner (hdirect : p.inverse = false) (hmembers : w.catalog.members (.property p) = [])
    (hrange : c.isRange = true) (hmark : c.bound? = some mark) (harea : item.isArea = false)
    (hshown : d.settings.query.nodeLog = true → ∀ t ∈ item.times, ∃ label, Time.label t = .ok label)
    (expand : Expansion σ) (path : List Nat) (isMember : Bool) (named : Option Property) (depth : Option Int)
    (progress : Progress) :
    ((d.compileNode expand isMember path (.someProperty p (.value item c named) depth)).outcome
      (w, progress)).1 =
      (Bound.ofInner (Field.inGroup (Field.group (w.catalog.number (.property p)).1) (Field.ofProperty p))
        item).map fun b => some (Clause.compound .must [b.clause mark]) := by
  obtain ⟨visited, hvisit, -⟩ := d.exists_visit (fun hlog =>
    (Description.isOk_portrait (.someProperty p (.value item c named) depth)).mpr (hshown hlog)) (w, progress)
  rw [compileNode, outcome_bind_of_ok hvisit]
  exact d.fst_compileProperty_range hdirect hmembers hrange hmark harea expand path named depth visited

/-- A node that cannot be shown cannot be compiled where visits are recorded. -/
theorem exists_error_of_illegible (node : Description) (h : ¬ (d.settings.query.nodeLog = true →
      ∀ t ∈ node.times, ∃ label, Time.label t = .ok label))
    (expand : Expansion σ) (isMember : Bool) (path : List Nat) (s : World σ × Progress) :
    ∃ e, ((d.compileNode expand isMember path node).outcome s).1 = .error e := by
  rw [← Description.isOk_portrait] at h
  obtain ⟨hlog, hportrait⟩ := Classical.not_imp.mp h
  have hvisit : ∃ e, ((d.visit node).outcome s).1 = .error e := by
    unfold visit
    rw [if_pos hlog]
    cases hp : node.portrait with
    | ok ms => exact absurd ⟨ms, hp⟩ hportrait
    | error e => exact ⟨e, rfl⟩
  obtain ⟨e, he⟩ := hvisit
  obtain ⟨rest, hrest⟩ := d.compileNode_eq expand isMember path node
  rw [hrest]
  exact ⟨e, fst_bind_of_error he _⟩

/-- A bound on the values of a direct property with nothing below it, once as a member of a conjunction,
wherever that stands, and once within the property. Both conditions fail for a time that cannot be compared, or
cannot be written where visits are recorded, and otherwise both are compiled to ranges. The ranges have the same
field and the same value for numbers, truth values, times, coordinates and addresses with nothing to decode, and
for no other item. -/
theorem compileNode_bounds {p : Property} (hdirect : p.inverse = false) {c : Comparator}
    (hrange : c.isRange = true) {item : Item} (harea : item.isArea = false) (named : Option Property)
    (depth : Option Int) {w : World σ} (hmembers : w.catalog.members (.property p) = [])
    (expand expand' : Expansion σ) (path path' : List Nat) (isMember : Bool) (progress progress' : Progress) :
    let member := ((d.compileNode expand true path (.value item c (some p))).outcome (w, progress)).1
    let inner := ((d.compileNode expand' isMember path' (.someProperty p (.value item c named) depth)).outcome
      (w, progress')).1
    ((∀ t ∈ item.times, Description.IsUsable d.settings.query t) →
      ∃ (mark : String) (b b' : Bound), c.bound? = some mark ∧ member = .ok (some (b.clause mark)) ∧
        inner = .ok (some (Clause.compound .must [b'.clause mark])) ∧ (b = b' ↔ item.IsBoundedAlike)) ∧
    ((¬ ∀ t ∈ item.times, Description.IsUsable d.settings.query t) →
      ∃ e e', member = .error e ∧ inner = .error e') := by
  intro member inner
  obtain ⟨⟨mark, hmark⟩, -⟩ := Comparator.bounds_of_isRange hrange
  let field := Field.inGroup (Field.group (w.catalog.number (.property p)).1) (Field.ofProperty p)
  have hcompiled (hshown : d.settings.query.nodeLog = true →
      ∀ t ∈ item.times, ∃ label, Time.label t = .ok label) :
      member = (Bound.ofMember field item).map (fun b => some (b.clause mark)) ∧
        inner = (Bound.ofInner field item).map fun b => some (Clause.compound .must [b.clause mark]) :=
    ⟨d.fst_compileNode_member hdirect hmembers hrange hmark harea hshown expand path progress,
      d.fst_compileNode_inner hdirect hmembers hrange hmark harea hshown expand' path' isMember named depth
        progress'⟩
  rw [← usable_iff]
  constructor
  · rintro ⟨hshown, hday⟩
    obtain ⟨hmember, hinner⟩ := hcompiled hshown
    obtain ⟨b, b', hb, hb', hsame⟩ := Bound.exists_bounds field hday
    rw [hb] at hmember
    rw [hb'] at hinner
    exact ⟨mark, b, b', hmark, hmember, hinner, hsame⟩
  · intro hunusable
    by_cases hshown : d.settings.query.nodeLog = true → ∀ t ∈ item.times, ∃ label, Time.label t = .ok label
    · obtain ⟨hmember, hinner⟩ := hcompiled hshown
      obtain ⟨e, he, he'⟩ := Bound.exists_errors field fun hday => hunusable ⟨hshown, hday⟩
      rw [he] at hmember
      rw [he'] at hinner
      exact ⟨e, e, hmember, hinner⟩
    · obtain ⟨e, he⟩ := d.exists_error_of_illegible (.value item c (some p)) hshown expand true path
        (w, progress)
      obtain ⟨e', he'⟩ := d.exists_error_of_illegible (.someProperty p (.value item c named) depth)
        hshown expand' isMember path' (w, progress')
      exact ⟨e, e', he, he'⟩

private def boundStore : Deployment Unit where
  settings := {}
  client := ⟨fun _ s => (.error .connection, s)⟩
  cache := {}
  queue := {}

private def boundWorld : World Unit := { engine := (), catalog := { next := 1 } }

private def boundName : Property := { key := "Name", valueType := .text }

private def boundExpansion : Expansion Unit := fun _ _ _ => return none

/-- Texts from a letter on are looked for in two fields. -/
theorem compileNode_bounds_name :
    boundName.inverse = false ∧ Comparator.geq.isRange = true ∧ (Item.text "m").isArea = false ∧
      boundWorld.catalog.members (.property boundName) = [] ∧
      (∀ t ∈ (Item.text "m").times, Description.IsUsable boundStore.settings.query t) ∧
      ∃ (mark : String) (b b' : Bound), Comparator.geq.bound? = some mark ∧
        ((boundStore.compileNode boundExpansion true [0] (.value (.text "m") .geq (some boundName))).outcome
          (boundWorld, {})).1 = .ok (some (b.clause mark)) ∧
        ((boundStore.compileNode boundExpansion true [1]
          (.someProperty boundName (.value (.text "m") .geq none) none)).outcome (boundWorld, {})).1 =
          .ok (some (Clause.compound .must [b'.clause mark])) ∧
        b ≠ b' := by
  have htimes : ∀ t ∈ (Item.text "m").times, Description.IsUsable boundStore.settings.query t := by
    simp [Item.times]
  obtain ⟨mark, b, b', hmark, hmember, hinner, hsame⟩ := (compileNode_bounds boundStore
    (rfl : boundName.inverse = false) (rfl : Comparator.geq.isRange = true) (rfl : (Item.text "m").isArea = false)
    none none (rfl : boundWorld.catalog.members (.property boundName) = []) boundExpansion boundExpansion [0] [1]
    true {} {}).1 htimes
  exact ⟨rfl, rfl, rfl, rfl, htimes, mark, b, b', hmark, hmember, hinner, mt hsame.mp id⟩

end Deployment

end FactIndex
