import FactIndex.Compile.Node
import FactIndex.Proofs.Effect

/-!
# What becomes of the catalog

Numbers, fields and hierarchies come from the catalog alone. Asking for them gives numbers to what had
none and changes nothing else of the world. Lookups, on the other hand, leave the catalog as it is: they
use the cache and the search engine.

## Main definitions

* `Catalog.Grows`: a catalog that has been asked for more numbers.
* `OnCatalog`: an action that works on the catalog and on nothing else.
* `KeepsCatalog`: an action that leaves the catalog alone.
* `KeepsConcepts`: an action that leaves the stored queries of concepts alone.
-/

namespace FactIndex

open FactIndex.Effect

variable {σ α β : Type}

namespace Catalog

/-- More has a number than before. Numbers that were given stay, and so do hierarchies and concepts. -/
structure Grows (c c' : Catalog) : Prop where
  numbers : ∀ key n, c.numbers.get? key = some n → c'.numbers.get? key = some n
  hierarchy : c'.hierarchy = c.hierarchy
  concepts : c'.concepts = c.concepts

namespace Grows

variable {c c' c'' : Catalog}

theorem refl (c : Catalog) : c.Grows c := ⟨fun _ _ => id, rfl, rfl⟩

theorem trans (h : c.Grows c') (h' : c'.Grows c'') : c.Grows c'' :=
  ⟨fun key n hn => h'.numbers key n (h.numbers key n hn), h'.hierarchy.trans h.hierarchy,
    h'.concepts.trans h.concepts⟩

/-- What has no number is given one. -/
theorem put {key : CatalogKey} (hnew : c.numbers.get? key = none) (n : Int)
    (hnumbers : c'.numbers = c.numbers.put key n) (hhierarchy : c'.hierarchy = c.hierarchy)
    (hconcepts : c'.concepts = c.concepts) : c.Grows c' := by
  refine ⟨fun other m hm => ?_, hhierarchy, hconcepts⟩
  have hne : key ≠ other := by
    rintro rfl
    rw [hnew] at hm
    cases hm
  rw [hnumbers, Table.get?_put_of_ne _ _ hne, hm]

end Grows

theorem grows_number (c : Catalog) (item : Numbered) : c.Grows (c.number item).2 := by
  unfold number
  cases hget : c.numbers.get? item.key with
  | some n => exact Grows.refl c
  | none =>
      cases item with
      | entity e =>
          have hnew : c.numbers.get? (.entity e.hash) = none := hget
          unfold add addEntity
          simp only [hnew]
          exact Grows.put hnew _ rfl rfl rfl
      | property p =>
          have hnew : c.numbers.get? (.property p.key) = none := hget
          unfold add addProperty
          simp only [hnew]
          exact Grows.put hnew _ rfl rfl rfl

/-- What was asked for has a number afterwards, which is the answer. -/
theorem get?_number (c : Catalog) (item : Numbered) :
    (c.number item).2.numbers.get? item.key = some (c.number item).1 := by
  unfold number
  cases hget : c.numbers.get? item.key with
  | some n => exact hget
  | none =>
      cases item with
      | entity e =>
          have hnew : c.numbers.get? (.entity e.hash) = none := hget
          unfold add addEntity
          simp only [hnew]
          exact Table.get?_put_self _ _ _
      | property p =>
          have hnew : c.numbers.get? (.property p.key) = none := hget
          unfold add addProperty
          simp only [hnew]
          exact Table.get?_put_self _ _ _

end Catalog

/-- An action asks nothing but the catalog, and does nothing but add to it. -/
def OnCatalog (x : Action σ α) : Prop :=
  ∃ y : Effect Catalog α, ∀ w,
    x.outcome w = ((y.outcome w.catalog).1, { w with catalog := (y.outcome w.catalog).2 }) ∧
      w.catalog.Grows (y.outcome w.catalog).2

namespace OnCatalog

theorem pure (a : α) : OnCatalog (Pure.pure a : Action σ α) :=
  ⟨Pure.pure a, fun w => ⟨rfl, Catalog.Grows.refl w.catalog⟩⟩

theorem throw (e : Failure) : OnCatalog (MonadExcept.throw e : Action σ α) :=
  ⟨MonadExcept.throw e, fun w => ⟨rfl, Catalog.Grows.refl w.catalog⟩⟩

theorem ofExcept (r : Except Failure α) : OnCatalog (Effect.ofExcept r : Action σ α) := by
  cases r with
  | ok a => exact OnCatalog.pure a
  | error e => exact OnCatalog.throw e

theorem numberOf (item : Numbered) : OnCatalog (FactIndex.numberOf item : Action σ Int) :=
  ⟨.make fun c => (.ok (c.number item).1, (c.number item).2),
    fun w => ⟨rfl, w.catalog.grows_number item⟩⟩

theorem catalog : OnCatalog (FactIndex.catalog : Action σ Catalog) :=
  ⟨.make fun c => (.ok c, c), fun w => ⟨rfl, Catalog.Grows.refl w.catalog⟩⟩

theorem bind {x : Action σ α} {f : α → Action σ β} (hx : OnCatalog x)
    (hf : ∀ a, OnCatalog (f a)) : OnCatalog (x >>= f) := by
  obtain ⟨y, hy⟩ := hx
  refine ⟨y >>= fun a => (hf a).choose, fun w => ?_⟩
  obtain ⟨houtcome, hgrows⟩ := hy w
  rw [outcome_bind, outcome_bind, houtcome]
  rcases hr : y.outcome w.catalog with ⟨e | a, c⟩
  · rw [hr] at hgrows
    exact ⟨rfl, hgrows⟩
  · rw [hr] at hgrows
    obtain ⟨houtcome', hgrows'⟩ := (hf a).choose_spec { w with catalog := c }
    exact ⟨houtcome', hgrows.trans hgrows'⟩

theorem mapM {f : α → Action σ β} (items : List α) (h : ∀ a, OnCatalog (f a)) :
    OnCatalog (items.mapM f) := by
  induction items with
  | nil => exact OnCatalog.pure _
  | cons a items ih =>
      rw [List.mapM_cons]
      exact (h a).bind fun _ => ih.bind fun _ => OnCatalog.pure _

/-- Nothing else of the world is touched. -/
theorem leaves {γ : Type} {x : Action σ α} (hx : OnCatalog x) {view : World σ → γ}
    (hview : ∀ w c, w.catalog.Grows c → view { w with catalog := c } = view w) :
    Leaves view x := by
  intro w
  obtain ⟨f, hf⟩ := hx
  rw [(hf w).1]
  exact hview w _ (hf w).2

end OnCatalog

/-- An action leaves the catalog alone, whatever it answers. -/
abbrev KeepsCatalog (x : Action σ α) : Prop := Leaves World.catalog x

/-- An action leaves the stored queries of concepts alone, whatever it answers. -/
abbrev KeepsConcepts (x : Action σ α) : Prop := Leaves (fun w => w.catalog.concepts) x

theorem OnCatalog.keepsConcepts {x : Action σ α} (h : OnCatalog x) : KeepsConcepts x :=
  h.leaves fun _ _ hc => hc.concepts

namespace KeepsCatalog

theorem ask (d : Deployment σ) (r : Request) : KeepsCatalog (FactIndex.ask d r) := fun _ => rfl

theorem onCache (x : Effect Cache.Site α) : KeepsCatalog (FactIndex.onCache x : Action σ α) :=
  fun _ => rfl

theorem keepsConcepts {x : Action σ α} (h : KeepsCatalog x) : KeepsConcepts x :=
  fun w => congrArg Catalog.concepts (h w)

end KeepsCatalog

namespace Deployment

variable (d : Deployment σ)

/-! ## Numbers -/

theorem onCatalog_below (item : Numbered) (depth : Option Int) :
    OnCatalog (below item depth : Action σ (List Int)) :=
  OnCatalog.catalog.bind fun _ => OnCatalog.mapM _ fun _ => OnCatalog.numberOf _

theorem onCatalog_propertySite (p : Property) (depth : Option Int) :
    OnCatalog (d.propertySite p depth) :=
  (OnCatalog.numberOf _).bind fun _ => (onCatalog_below _ _).bind fun _ => OnCatalog.pure _

theorem onCatalog_categoryClause (isMember : Bool) (categories : List Entity)
    (depth : Option Int) (negated : Bool) :
    OnCatalog (d.categoryClause isMember categories depth negated) := by
  refine (OnCatalog.numberOf _).bind fun _ => OnCatalog.bind (OnCatalog.mapM _ fun _ =>
    (OnCatalog.numberOf _).bind fun _ => OnCatalog.pure _) fun _ => ?_
  exact OnCatalog.bind (OnCatalog.mapM _ fun _ => (onCatalog_below _ _).bind fun _ =>
    OnCatalog.pure _) fun _ => OnCatalog.pure _

theorem onCatalog_namedSite (condition : Description) (p : Property) :
    OnCatalog (namedSite condition p : Action σ Site) := by
  refine (OnCatalog.numberOf _).bind fun n => ?_
  dsimp only
  split
  · exact (OnCatalog.ofExcept _).bind fun _ => (OnCatalog.throw _).bind fun _ =>
      (onCatalog_below _ _).bind fun _ => OnCatalog.pure _
  · exact (onCatalog_below _ _).bind fun _ => OnCatalog.pure _

theorem onCatalog_siteValue (site : Site) (item : Item) (c : Comparator) :
    OnCatalog (siteValue site item c : Action σ (String × Json)) := by
  unfold siteValue
  split
  · split
    · exact (OnCatalog.numberOf _).bind fun _ => OnCatalog.pure _
    · exact OnCatalog.pure _
  · exact (OnCatalog.ofExcept _).bind fun _ => OnCatalog.pure _

theorem onCatalog_arrayValue (array : String) (item : Item) (c : Comparator) :
    OnCatalog (arrayValue array item c : Action σ (String × Json)) := by
  unfold arrayValue
  split
  · split
    · exact (OnCatalog.numberOf _).bind fun _ => OnCatalog.pure _
    · exact OnCatalog.pure _
  · exact OnCatalog.pure _
  · exact (OnCatalog.ofExcept _).bind fun _ => OnCatalog.pure _

/-! ## Lookups -/

theorem keepsCatalog_cached (key : Json) : KeepsCatalog (d.cached? key) := by
  refine (KeepsCatalog.onCache _).attempt.bind fun r => ?_
  split
  · exact Leaves.pure _
  · exact Leaves.pure _
  · exact Leaves.throw _

theorem keepsCatalog_search (index : String) (body : Members) :
    KeepsCatalog (d.search index body) := by
  refine (KeepsCatalog.ask d _).bind fun r => ?_
  split
  · exact (Leaves.ofExcept _).bind fun _ => Leaves.pure _
  · exact Leaves.pure _
  · exact Leaves.throw _

theorem keepsCatalog_demand (r : Request) : KeepsCatalog (d.demand r) := by
  refine (KeepsCatalog.ask d r).bind fun answer => ?_
  split
  · exact Leaves.pure _
  · exact Leaves.throw _

theorem keepsCatalog_storeList (id : String) (ids : List Json) :
    KeepsCatalog (Lookup.storeList d id ids) :=
  Leaves.bind ((d.keepsCatalog_demand _).bind fun _ => Leaves.pure _) fun _ =>
    Leaves.bind ((d.keepsCatalog_demand _).bind fun _ => Leaves.pure _) fun _ => Leaves.pure _

theorem keepsCatalog_find (l : Lookup) : KeepsCatalog (l.find d) :=
  (d.keepsCatalog_search _ _).bind fun _ => (Leaves.ofExcept _).bind fun _ => Leaves.pure _

theorem keepsCatalog_keep (l : Lookup) (found : Found) : KeepsCatalog (l.keep d found) := by
  unfold Lookup.keep
  dsimp only
  split
  · exact (d.keepsCatalog_storeList _ _).bind fun _ => (KeepsCatalog.onCache _).bind fun _ =>
      Leaves.pure _
  · split
    · exact (KeepsCatalog.onCache _).bind fun _ => Leaves.pure _
    · exact Leaves.pure _

theorem keepsCatalog_materialize (l : Lookup) : KeepsCatalog (l.materialize d) :=
  (d.keepsCatalog_find l).bind fun _ => d.keepsCatalog_keep l _

theorem keepsCatalog_resolve (l : Lookup) : KeepsCatalog (l.resolve d) := by
  unfold Lookup.resolve
  refine (d.keepsCatalog_cached _).bind fun r => ?_
  split
  · split
    · exact d.keepsCatalog_materialize l
    · exact Leaves.ofExcept _
  · exact d.keepsCatalog_materialize l

theorem keepsCatalog_resolved (l : Lookup) (field name title : String) :
    KeepsCatalog (d.resolved l field name title) :=
  (d.keepsCatalog_resolve l).bind fun _ => Leaves.pure _

theorem keepsCatalog_lookup (key field : String) (params : Json) :
    KeepsCatalog (d.lookup key field params) :=
  d.keepsCatalog_resolved _ _ _ _

theorem keepsCatalog_lookupChain (p : Property) (text field : String) (params : Json) :
    KeepsCatalog (d.lookupChain p text field params) :=
  d.keepsCatalog_resolved _ _ _ _

theorem keepsCatalog_lookupConcept (concept : Entity) (number : Json) (description : Description)
    (params : Json) : KeepsCatalog (d.lookupConcept concept number description params) :=
  (Leaves.ofExcept _).bind fun _ => d.keepsCatalog_resolved _ _ _ _

theorem keepsCatalog_lookupInverse (key field : String) (params : Json) :
    KeepsCatalog (d.lookupInverse key field params) := by
  unfold lookupInverse
  split
  · exact Leaves.pure _
  · exact d.keepsCatalog_resolved _ _ _ _

end Deployment

end FactIndex
