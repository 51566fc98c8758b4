import FactIndex.Proofs.Compile.Meaning
import FactIndex.Proofs.Compile.Progress
import FactIndex.Proofs.Search.SelfContained
import FactIndex.Proofs.Store.Catalog

/-!
# Compiling a condition again

A condition on a direct property rests on numbers of the catalog and on nothing else of the world.
Numbers that were given stay, so the condition comes to the same clause whenever it is compiled again.

## Main definitions

* `Compiling.read?`: what a computation answers in a world.
* `Compiling.RepeatedBy`: a computation on the catalog, and another one that answers the same later on.
* `Description.IsLeaf`: what a chain of properties can end with.
* `Deployment.repeatedBy_property`: a condition on a property, compiled anywhere else later on.
* `Deployment.answers_property`: its clause, and why there may be none.
-/

namespace FactIndex

open FactIndex.Effect FactIndex.Calendar

variable {σ α β : Type}

/-! ## What is answered -/

namespace Effect

variable {fails : Prop} {good : α → Prop} {good' : β → Prop}

/-- Every answer of a computation is a good one, and there is one unless something is the case. -/
structure Answers (x : Effect σ α) (fails : Prop) (good : α → Prop) : Prop where
  good : ∀ s a, (x.outcome s).1 = .ok a → good a
  fails : ∀ s e, (x.outcome s).1 = .error e → fails

namespace Answers

/-- There is always an answer. -/
theorem of_ok {x : Effect σ α} (h : ∀ s, ∃ a, (x.outcome s).1 = .ok a ∧ good a) :
    Answers x fails good where
  good s a ha := by
    obtain ⟨b, hb, hgood⟩ := h s
    rw [hb] at ha
    cases ha
    exact hgood
  fails s e he := by
    obtain ⟨b, hb, -⟩ := h s
    rw [hb] at he
    cases he

theorem pure {a : α} (h : good a) : Answers (Pure.pure a : Effect σ α) fails good :=
  of_ok fun _ => ⟨a, rfl, h⟩

theorem ofExcept {r : Except Failure α} (hgood : ∀ a, r = .ok a → good a)
    (hfails : ∀ e, r = .error e → fails) : Answers (Effect.ofExcept r : Effect σ α) fails good where
  good s a h := hgood a (by rwa [outcome_ofExcept] at h)
  fails s e h := hfails e (by rwa [outcome_ofExcept] at h)

theorem bind {x : Effect σ α} {f : α → Effect σ β} (hx : Answers x fails good)
    (hf : ∀ a, good a → Answers (f a) fails good') : Answers (x >>= f) fails good' where
  good s b h := by
    rw [outcome_bind] at h
    rcases hr : x.outcome s with ⟨e | a, t⟩ <;> rw [hr] at h
    · cases h
    · exact (hf a (hx.good s a (by rw [hr]))).good t b h
  fails s e h := by
    rw [outcome_bind] at h
    rcases hr : x.outcome s with ⟨e' | a, t⟩ <;> rw [hr] at h
    · exact hx.fails s e' (by rw [hr])
    · exact (hf a (hx.good s a (by rw [hr]))).fails t e h

theorem mono {good₂ : α → Prop} {x : Effect σ α} (hx : Answers x fails good)
    (h : ∀ a, good a → good₂ a) : Answers x fails good₂ :=
  ⟨fun s a ha => h a (hx.good s a ha), hx.fails⟩

/-- What an answer fails for may be said with less detail. -/
theorem of_fails {fails' : Prop} {x : Effect σ α} (hx : Answers x fails good) (h : fails → fails') :
    Answers x fails' good := ⟨hx.good, fun s e he => h (hx.fails s e he)⟩

theorem act {x : Action σ α} (hx : Answers x fails good) : Answers (Compiling.act x) fails good where
  good s := hx.good s.1
  fails s := hx.fails s.1

/-- Numbers are always there. -/
theorem numberOf (item : Numbered) :
    Answers (FactIndex.numberOf item : Action σ Int) fails fun _ => True :=
  of_ok fun _ => ⟨_, rfl, trivial⟩

theorem catalog : Answers (FactIndex.catalog : Action σ Catalog) fails fun _ => True :=
  of_ok fun _ => ⟨_, rfl, trivial⟩

/-- Of a sequence everything is known that is known of each part. -/
theorem mapM {f : α → Effect σ β} (h : ∀ a, Answers (f a) fails good') (items : List α) :
    Answers (items.mapM f) fails fun bs => ∀ b ∈ bs, good' b := by
  induction items with
  | nil => exact Answers.pure (by simp)
  | cons a items ih =>
      rw [List.mapM_cons]
      exact (h a).bind fun b hb => ih.bind fun bs hbs =>
        Answers.pure (List.forall_mem_cons.mpr ⟨hb, hbs⟩)

theorem note (g : Progress → Progress) :
    Answers (Compiling.note g : Compiling σ Unit) fails fun _ => True :=
  of_ok fun _ => ⟨_, rfl, trivial⟩

end Answers

end Effect

namespace Compiling

theorem act_ofExcept (r : Except Failure α) :
    act (Effect.ofExcept r : Action σ α) = Effect.ofExcept r := by
  cases r <;> rfl

/-- What a computation answers in a world, if it does. -/
def read? (x : Compiling σ α) (w : World σ) : Option α := (x.outcome (w, {})).1.toOption

theorem read?_eq_some {x : Compiling σ α} {w : World σ} {a : α} :
    x.read? w = some a ↔ (x.outcome (w, {})).1 = .ok a := by
  unfold read?
  cases (x.outcome (w, {})).1 <;> simp [Except.toOption]

/-- A computation adds to the catalog at most. Where it has an answer, the other one has the same later
on and leaves the world alone. -/
structure RepeatedBy (x y : Compiling σ α) : Prop where
  records : ∀ s, (x.outcome s).2.2.records = s.2.records
  touches : ∀ s, ∃ c, (x.outcome s).2.1 = { s.1 with catalog := c } ∧ s.1.catalog.Grows c
  again : ∀ s a, (x.outcome s).1 = .ok a → ∀ s', (x.outcome s).2.1.catalog.Grows s'.1.catalog →
    (y.outcome s').1 = .ok a ∧ (y.outcome s').2.1 = s'.1

namespace RepeatedBy

variable {x y : Compiling σ α}

theorem grows (h : RepeatedBy x y) (s : World σ × Progress) :
    s.1.catalog.Grows (x.outcome s).2.1.catalog := by
  obtain ⟨c, hw, hc⟩ := h.touches s
  rwa [hw]

theorem pure (a : α) : RepeatedBy (Pure.pure a : Compiling σ α) (Pure.pure a) where
  records _ := rfl
  touches s := ⟨s.1.catalog, rfl, Catalog.Grows.refl _⟩
  again _ _ h _ _ := ⟨h, rfl⟩

theorem ofExcept (r : Except Failure α) :
    RepeatedBy (Effect.ofExcept r : Compiling σ α) (Effect.ofExcept r) where
  records s := by rw [outcome_ofExcept]
  touches s := ⟨s.1.catalog, by rw [outcome_ofExcept], Catalog.Grows.refl _⟩
  again s a h s' _ := by
    rw [outcome_ofExcept] at h ⊢
    exact ⟨h, rfl⟩

/-- What is noted may be different later on. -/
theorem note {g g' : Progress → Progress} (h : ∀ p, (g p).records = p.records) :
    RepeatedBy (Compiling.note g : Compiling σ Unit) (Compiling.note g') where
  records s := h s.2
  touches s := ⟨s.1.catalog, rfl, Catalog.Grows.refl _⟩
  again _ _ _ _ _ := ⟨rfl, rfl⟩

theorem report (e : Defect) :
    RepeatedBy (Compiling.report e : Compiling σ Unit) (Compiling.report e) :=
  note fun _ => rfl

theorem bind {f g : α → Compiling σ β} (hx : RepeatedBy x y) (hf : ∀ a, RepeatedBy (f a) (g a)) :
    RepeatedBy (x >>= f) (y >>= g) where
  records s := by
    have hrecords := hx.records s
    rw [outcome_bind]
    rcases hr : x.outcome s with ⟨e | a, t⟩ <;> rw [hr] at hrecords
    · exact hrecords
    · exact ((hf a).records t).trans hrecords
  touches s := by
    have htouches := hx.touches s
    rw [outcome_bind]
    rcases hr : x.outcome s with ⟨e | a, t⟩ <;> rw [hr] at htouches
    · exact htouches
    · obtain ⟨c, hw, hc⟩ := htouches
      obtain ⟨c', hw', hc'⟩ := (hf a).touches t
      dsimp only at hw
      rw [hw] at hw' hc'
      exact ⟨c', hw', hc.trans hc'⟩
  again s b h s' hs' := by
    rcases hr : x.outcome s with ⟨e | a, t⟩
    · rw [outcome_bind_of_error hr] at h
      cases h
    · rw [outcome_bind_of_ok hr] at h hs'
      obtain ⟨hanswer, hworld⟩ := hx.again s a (by rw [hr]) s'
        (by rw [hr]; exact ((hf a).grows t).trans hs')
      rw [outcome_bind_of_answer hanswer]
      obtain ⟨hanswer', hworld'⟩ := (hf a).again t b h (y.outcome s').2 (by rwa [hworld])
      exact ⟨hanswer', hworld'.trans hworld⟩

/-- A sequence of actions, each of which is repeated. -/
theorem act_mapM {f : α → Action σ β} (items : List α) (h : ∀ a, RepeatedBy (act (f a)) (act (f a))) :
    RepeatedBy (act (items.mapM f)) (act (items.mapM f)) := by
  induction items with
  | nil => exact RepeatedBy.pure _
  | cons a items ih =>
      rw [List.mapM_cons, act_bind]
      refine (h a).bind fun _ => ?_
      rw [act_bind]
      exact ih.bind fun _ => RepeatedBy.pure _

/-- A number is given once and for all. -/
theorem numberOf (item : Numbered) :
    RepeatedBy (act (FactIndex.numberOf item) : Compiling σ Int) (act (FactIndex.numberOf item)) where
  records _ := rfl
  touches s := ⟨_, rfl, s.1.catalog.grows_number item⟩
  again s n h s' hs' := by
    have hknown := hs'.numbers item.key _ (s.1.catalog.get?_number item)
    have hnumber : s'.1.catalog.number item = ((s.1.catalog.number item).1, s'.1.catalog) :=
      Catalog.number_of_known _ item hknown
    rw [outcome_act]
    simp only [FactIndex.numberOf, outcome_make, hnumber]
    exact ⟨h, trivial⟩

/-- What was answered is read off any later catalog. -/
theorem read (h : RepeatedBy x y) {s : World σ × Progress} {a : α} (ha : (x.outcome s).1 = .ok a)
    {w : World σ} (hw : (x.outcome s).2.1.catalog.Grows w.catalog) : y.read? w = some a := by
  unfold read?
  rw [(h.again s a ha (w, {}) hw).1]
  rfl

/-- What is repeated by the same comes to the same. -/
theorem eq_of_later {x' : Compiling σ α} (h : RepeatedBy x y) (h' : RepeatedBy x' y)
    {s t s' t' : World σ × Progress} {a a' : α} (hx : x.outcome s = (.ok a, t))
    (hx' : x'.outcome s' = (.ok a', t')) {c : Catalog} (hgrows : t.1.catalog.Grows c)
    (hgrows' : t'.1.catalog.Grows c) : a' = a := by
  have hread := h.read (by rw [hx]) (w := { s.1 with catalog := c }) (by rw [hx]; exact hgrows)
  have hread' := h'.read (by rw [hx']) (w := { s.1 with catalog := c }) (by rw [hx']; exact hgrows')
  exact Option.some.inj (hread'.symm.trans hread)

/-- The hierarchies in the catalog stay as they are. -/
theorem catalog_bind {f g : Catalog → Compiling σ α}
    (h : ∀ c c', c'.hierarchy = c.hierarchy → RepeatedBy (f c) (g c')) :
    RepeatedBy (act catalog >>= f) (act catalog >>= g) where
  records s := (h s.1.catalog _ rfl).records s
  touches s := (h s.1.catalog _ rfl).touches s
  again s a ha s' hs' := by
    have hgrows := ((h s.1.catalog _ rfl).grows s).trans hs'
    exact (h s.1.catalog s'.1.catalog hgrows.hierarchy).again s a ha s' hs'

end RepeatedBy

end Compiling

/-! ## Conditions -/

/-- An item is searched in the form of a value of its own. -/
theorem Item.searchValue_ne_obj {item : Item} {value : Json} (h : item.searchValue = .ok value)
    (ms : Members) : value ≠ .obj ms := by
  cases item with
  | time t =>
      cases hday : TimeOf.dayNumber t <;> simp only [searchValue, hday] at h <;> cases h
      exact nofun
  | page | text | uri | number | boolean | coordinate | area =>
      cases h
      exact nofun

/-- Only a time may have no such form. -/
theorem Item.exists_time_of_searchValue {item : Item} {e : Failure} (h : item.searchValue = .error e) :
    ∃ t ∈ item.times, ¬ ∃ x, TimeOf.dayNumber t = .ok x := by
  cases item with
  | time t =>
      refine ⟨t, List.mem_singleton_self t, fun ⟨x, hx⟩ => ?_⟩
      simp only [searchValue, hx] at h
      cases h
  | page | text | uri | number | boolean | coordinate | area => cases h

/-- Every comparison of values makes a clause. -/
theorem Condition.exists_ofProperty (q : QuerySettings) (normalKeywords : Bool) (type : ValueType)
    (group array : String) (item : Item) (c : Comparator) (value : Json) :
    ∃ m, ofProperty q normalKeywords type group array item c value = .ok m := by
  unfold ofProperty
  dsimp only
  split <;> exact ⟨_, rfl⟩

theorem Clause.exists_compound (occur : Occur) (clauses : List Json) :
    ∃ body, compound occur clauses = .single "bool" body := ⟨_, rfl⟩

/-- What a chain of properties can end with. -/
def Description.IsLeaf : Description → Prop
  | .thing _ => True
  | .value _ _ _ => True
  | _ => False

namespace Deployment

open Compiling

variable (d : Deployment σ)

/-! ## Compiled again -/

theorem repeatedBy_below (item : Numbered) (depth : Option Int) :
    RepeatedBy (act (below item depth) : Compiling σ (List Int)) (act (below item depth)) := by
  unfold below
  rw [act_bind]
  refine RepeatedBy.catalog_bind fun c c' h => ?_
  have hmembers : c'.members item = c.members item := by
    unfold Catalog.members
    rw [h]
  dsimp only
  rw [hmembers]
  exact RepeatedBy.act_mapM _ RepeatedBy.numberOf

theorem repeatedBy_propertySite (p : Property) (depth : Option Int) :
    RepeatedBy (act (d.propertySite p depth)) (act (d.propertySite p depth)) := by
  unfold propertySite
  rw [act_bind]
  refine (RepeatedBy.numberOf _).bind fun n => ?_
  rw [act_bind]
  exact (repeatedBy_below _ _).bind fun _ => RepeatedBy.pure _

theorem repeatedBy_arrayValue (array : String) (item : Item) (c : Comparator) :
    RepeatedBy (act (arrayValue array item c) : Compiling σ (String × Json))
      (act (arrayValue array item c)) := by
  have hsearch : ∀ r : Except Failure Json, RepeatedBy
      (act (do return (array, ← .ofExcept r)) : Compiling σ (String × Json))
      (act (do return (array, ← .ofExcept r))) := by
    intro r
    rw [act_bind, act_ofExcept]
    exact (RepeatedBy.ofExcept r).bind fun _ => RepeatedBy.pure _
  unfold arrayValue
  split
  · split
    · rw [act_bind]
      exact (RepeatedBy.numberOf _).bind fun _ => RepeatedBy.pure _
    · exact RepeatedBy.pure _
  · exact RepeatedBy.pure _
  · exact hsearch _

variable {p : Property}

theorem repeatedBy_propertyCondition (hdirect : p.inverse = false) (group : String) (item : Item)
    (comparator : Comparator) (property : Option Property) :
    RepeatedBy (d.propertyCondition p group item comparator property)
      (d.propertyCondition p group item comparator property) := by
  unfold propertyCondition
  rw [hdirect]
  exact (repeatedBy_arrayValue _ _ _).bind fun _ => (RepeatedBy.ofExcept _).bind fun _ =>
    RepeatedBy.pure _

theorem repeatedBy_valueClause (hdirect : p.inverse = false) (path path' : List Nat)
    (site : String × List Int) (item : Item) (comparator : Comparator) (property : Option Property) :
    RepeatedBy (d.valueClause path p site item comparator property)
      (d.valueClause path' p site item comparator property) := by
  refine (d.repeatedBy_propertyCondition hdirect _ _ _ _).bind fun m => ?_
  dsimp only
  split
  · unfold negatedClause
    dsimp only
    split
    · refine RepeatedBy.bind (RepeatedBy.note ?_) fun _ => RepeatedBy.pure _
      exact fun _ => rfl
    · exact RepeatedBy.pure _
  · exact RepeatedBy.pure _

/-- A condition on a direct property, compiled at another place of another tree later on. -/
theorem repeatedBy_property (hdirect : p.inverse = false) {leaf : Description} (hleaf : leaf.IsLeaf)
    (expand expand' : Expansion σ) (path path' : List Nat) (depth : Option Int) :
    RepeatedBy (d.compileProperty expand path none p depth leaf)
      (d.compileProperty expand' path' none p depth leaf) := by
  cases leaf with
  | thing negated =>
      rw [compileProperty, compileProperty]
      exact (d.repeatedBy_propertySite p depth).bind fun _ => RepeatedBy.pure _
  | value item comparator property =>
      rw [compileProperty, compileProperty]
      exact (d.repeatedBy_propertySite p depth).bind fun site =>
        (d.repeatedBy_valueClause hdirect path path' site item comparator property).bind fun _ =>
          RepeatedBy.pure _
  | conjunction | disjunction | category | concept | space | someProperty => exact hleaf.elim

/-! ## The clause -/

/-- The numbers of what lies below are always there. -/
theorem answers_below (item : Numbered) (depth : Option Int) {fails : Prop} :
    Answers (below item depth : Action σ (List Int)) fails fun _ => True :=
  Answers.catalog.bind fun _ _ => (Answers.mapM Answers.numberOf _).mono fun _ _ => trivial

/-- The group of a property is that of a number. -/
theorem answers_propertySite (p : Property) (depth : Option Int) {fails : Prop} :
    Answers (d.propertySite p depth) fails fun site => ∃ n, site.1 = Field.group n :=
  (Answers.numberOf _).bind fun n _ => (answers_below _ _).bind fun _ _ => Answers.pure ⟨n, rfl⟩

/-- What is compared is a value of its own. Only a time may be too far off to be compared. -/
theorem answers_arrayValue (array : String) (item : Item) (c : Comparator) :
    Answers (arrayValue array item c : Action σ (String × Json))
      (∃ t ∈ item.times, ¬ ∃ x, TimeOf.dayNumber t = .ok x) fun found => ∀ ms, found.2 ≠ .obj ms := by
  unfold arrayValue
  split
  · split
    · exact (Answers.numberOf _).bind fun _ _ => Answers.pure nofun
    · exact Answers.pure nofun
  · exact Answers.pure nofun
  · exact (Answers.ofExcept (fun _ hvalue => Item.searchValue_ne_obj hvalue)
      fun _ he => Item.exists_time_of_searchValue he).bind fun _ hvalue => Answers.pure hvalue

theorem answers_propertyCondition (hdirect : p.inverse = false) (group : String) (item : Item)
    (comparator : Comparator) (property : Option Property) :
    Answers (d.propertyCondition p group item comparator property)
      (∃ t ∈ item.times, ¬ ∃ x, TimeOf.dayNumber t = .ok x)
      fun m => Clause.IsElementary m.clause := by
  unfold propertyCondition
  rw [hdirect]
  refine (answers_arrayValue _ _ _).act.bind fun found hfound => ?_
  refine (Answers.ofExcept (fun m hm => Condition.isElementary_ofProperty hfound hm) ?_).bind
    fun m hm => Answers.pure hm
  intro e he
  obtain ⟨m, hm⟩ := Condition.exists_ofProperty d.settings.query d.settings.writer.normalKeywords
    p.valueType group found.1 item comparator.normal found.2
  rw [hm] at he
  cases he

/-- The clause of a condition on the values of a direct property is compound and asks for no list. -/
theorem answers_valueClause (hdirect : p.inverse = false) (path : List Nat) (n : Int)
    (lower : List Int) (item : Item) (comparator : Comparator) (property : Option Property) :
    Answers (d.valueClause path p (Field.group n, lower) item comparator property)
      (∃ t ∈ item.times, ¬ ∃ x, TimeOf.dayNumber t = .ok x)
      fun clause => Clause.IsSelfContained clause ∧ ∃ body, clause = .single "bool" body := by
  refine (d.answers_propertyCondition hdirect _ _ _ _).bind fun m hm => ?_
  have hover := Clause.isSelfContained_overHierarchy hm n lower
  rw [hdirect]
  dsimp only
  split
  · have hnegated : Clause.IsSelfContained (Clause.compound .must
        [Clause.hasField (Field.inGroup (Field.group n) m.array), Clause.compound .mustNot
          [Clause.overHierarchy m.clause (Field.group n) lower]]) := by
      refine Clause.isSelfContained_compound _ fun clause hclause => ?_
      simp only [List.mem_cons, List.not_mem_nil, or_false] at hclause
      rcases hclause with rfl | rfl
      · exact Clause.isSelfContained_hasField _
      · refine Clause.isSelfContained_compound _ fun clause hclause => ?_
        rwa [List.mem_singleton.mp hclause]
    unfold negatedClause
    dsimp only
    split
    · exact (Answers.note _).bind fun _ _ => Answers.pure ⟨hnegated, Clause.exists_compound _ _⟩
    · exact Answers.pure ⟨hnegated, Clause.exists_compound _ _⟩
  · refine Answers.pure ⟨Clause.isSelfContained_compound _ fun clause hclause => ?_,
      Clause.exists_compound _ _⟩
    rwa [List.mem_singleton.mp hclause]

/-- The clause of a condition on a direct property is compound and asks for no list. Only a time may be
too far off to be compared. -/
theorem answers_property (hdirect : p.inverse = false) {leaf : Description} (hleaf : leaf.IsLeaf)
    (expand : Expansion σ) (path : List Nat) (depth : Option Int) :
    Answers (d.compileProperty expand path none p depth leaf)
      (∃ t ∈ leaf.times, ¬ ∃ x, TimeOf.dayNumber t = .ok x) fun r => ∃ clause, r = some clause ∧
        Clause.IsSelfContained clause ∧ ∃ body, clause = .single "bool" body := by
  cases leaf with
  | thing negated =>
      rw [compileProperty]
      refine (d.answers_propertySite p depth).act.bind fun site hsite => ?_
      obtain ⟨n, hn⟩ := hsite
      refine Answers.pure ⟨_, rfl, Clause.isSelfContained_compound _ fun clause hclause => ?_,
        Clause.exists_compound _ _⟩
      rw [List.mem_singleton.mp hclause, hn]
      exact Clause.isSelfContained_overHierarchy (Clause.isElementary_single _ (by decide)) n _
  | value item comparator property =>
      rw [compileProperty]
      refine (d.answers_propertySite p depth).act.bind fun site hsite => ?_
      obtain ⟨group, lower⟩ := site
      obtain ⟨n, rfl⟩ := hsite
      exact (d.answers_valueClause hdirect path n lower item comparator property).bind
        fun clause hclause => Answers.pure ⟨clause, rfl, hclause⟩
  | conjunction | disjunction | category | concept | space | someProperty => exact hleaf.elim

end Deployment

end FactIndex
