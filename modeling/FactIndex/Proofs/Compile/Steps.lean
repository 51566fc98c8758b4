import FactIndex.Proofs.Compile.Progress
import FactIndex.Proofs.Failure
import FactIndex.Proofs.Lookup.History
import FactIndex.Proofs.Store.Growth
import FactIndex.Store.Sorting

/-!
# What a compilation is made of

Whatever a description is compiled from, its compilation is a sequence of a few kinds of steps: things are
given numbers, the hierarchies and the stored queries of concepts are read, something is noted, and
lookups are made. What is to be known of every compilation follows from what is known of these steps, and
the same holds for the sort keys of a query.

## Main definitions

* `Compiling.IsBuilt`: a computation that is made of such steps.
* `Compiling.IsBuilt.reaches`: what it does to the catalog.
* `Sorting.property`: the step of a sort key, a property by its label with its number.
* `Deployment.isBuilt_compileTree`: the compilation of a description.
* `Deployment.isBuilt_sorting`: the sort keys of a query.
-/

namespace FactIndex

open FactIndex.Effect

variable {σ α β : Type}

/-- The property that a label stands for, with its number. -/
def Sorting.property (label : String) : Action σ (Property × Int) := do
  let p := (← catalog).findProperty label
  return (p, ← numberOf (.property p))

namespace Compiling

/-- A computation that is made of the steps of a compilation. What follows on a look at the catalog depends
on the hierarchies and the concepts alone, and what follows on a look at the progress, or is noted, does
not depend on the records of lookups. -/
inductive IsBuilt (d : Deployment σ) : {α : Type} → Compiling σ α → Prop
  | pure {α : Type} (a : α) : IsBuilt d (Pure.pure a : Compiling σ α)
  | ofExcept {α : Type} {r : Except Failure α} (h : Failure.Own r) : IsBuilt d (Effect.ofExcept r)
  | numberOf (item : Numbered) : IsBuilt d (act (FactIndex.numberOf item))
  | sortProperty (label : String) : IsBuilt d (act (Sorting.property label))
  | onCatalog {α : Type} {f : Catalog → Compiling σ α}
      (hsame : ∀ c c', c'.hierarchy = c.hierarchy → c'.concepts = c.concepts → f c' = f c)
      (h : ∀ c, IsBuilt d (f c)) : IsBuilt d (act catalog >>= f)
  | onProgress {α : Type} {f : Progress → Compiling σ α}
      (hsame : ∀ p records, f { p with records } = f p) (h : ∀ p, IsBuilt d (f p)) :
      IsBuilt d (progress >>= f)
  | note {g : Progress → Progress} (h : ∀ p records, g { p with records } = { g p with records }) :
      IsBuilt d (Compiling.note g)
  | lookUp (call : LookupCall) : IsBuilt d (Compiling.lookUp (call.run d))
  | bind {α β : Type} {x : Compiling σ α} {f : α → Compiling σ β} (hx : IsBuilt d x)
      (hf : ∀ a, IsBuilt d (f a)) : IsBuilt d (x >>= f)
  | expandingOf {α : Type} (hash : String) {x : Compiling σ α} (hx : IsBuilt d x) :
      IsBuilt d (Compiling.expandingOf hash x)

namespace IsBuilt

variable {d : Deployment σ}

theorem map {x : Compiling σ α} (hx : IsBuilt d x) (f : α → β) : IsBuilt d (f <$> x) := by
  rw [map_eq_pure_bind]
  exact hx.bind fun a => .pure (f a)

theorem throw {e : Failure} (h : e.isOwn = true) :
    IsBuilt d (MonadExcept.throw e : Compiling σ α) := .ofExcept (Failure.Own.error h)

theorem report (e : Defect) : IsBuilt d (Compiling.report e) := .note fun _ _ => rfl

/-- An action in several steps. -/
theorem act_bind {x : Action σ α} {f : α → Action σ β} (hx : IsBuilt d (act x))
    (hf : ∀ a, IsBuilt d (act (f a))) : IsBuilt d (act (x >>= f)) := by
  rw [Compiling.act_bind]
  exact hx.bind hf

theorem act_pure (a : α) : IsBuilt d (act (Pure.pure a)) := .pure a

theorem act_ofExcept {r : Except Failure α} (h : Failure.Own r) : IsBuilt d (act (Effect.ofExcept r)) := by
  cases r with
  | ok a => exact .pure a
  | error e => exact throw (h e rfl)

theorem act_mapM {f : α → Action σ β} (h : ∀ a, IsBuilt d (act (f a))) (items : List α) :
    IsBuilt d (act (items.mapM f)) := by
  induction items with
  | nil => exact .pure _
  | cons a rest ih =>
      rw [List.mapM_cons]
      exact act_bind (h a) fun _ => act_bind ih fun _ => act_pure _

end IsBuilt

variable {d : Deployment σ}

theorem keepsCatalog_call (call : LookupCall) : KeepsCatalog (call.run d) := by
  cases call with
  | plain key field params => exact d.keepsCatalog_lookup key field params
  | chain property text field params => exact d.keepsCatalog_lookupChain property text field params
  | concept c number description params => exact d.keepsCatalog_lookupConcept c number description params
  | inverse key field params => exact d.keepsCatalog_lookupInverse key field params

/-- A compilation gives numbers to things that have none, and changes nothing else in the catalog: by
induction on the steps that it is made of. -/
theorem IsBuilt.reaches {x : Compiling σ α} (hx : IsBuilt d x) (s : World σ × Progress) :
    x.Meets s fun _ t => s.1.catalog.Reaches t.1.catalog := by
  induction hx generalizing s with
  | pure a => exact .refl
  | ofExcept _ => exact Meets.ofExcept .refl
  | numberOf item => exact s.1.catalog.reaches_number item
  | sortProperty label => exact s.1.catalog.reaches_number _
  | onCatalog _ _ ih => exact ih s.1.catalog s
  | onProgress _ _ ih => exact ih s.2 s
  | note _ => exact .refl
  | lookUp call =>
      have hkept := keepsCatalog_call (d := d) call s.1
      unfold Meets
      rcases hr : (call.run d).outcome s.1 with ⟨e | r, v⟩ <;> rw [hr] at hkept
      · rw [outcome_lookUp_of_error hr]
        exact hkept ▸ .refl
      · rw [outcome_lookUp_of_ok hr]
        exact hkept ▸ .refl
  | bind _ _ ihx ihf =>
      exact (ihx s).bind (fun a t ht => (ihf a t).mono fun _ _ hu => ht.trans hu) fun _ _ ht => ht
  | expandingOf hash _ ih =>
      have h := ih (s.1, { s.2 with expanding := s.2.expanding ++ [hash] })
      unfold Meets
      rw [outcome_expandingOf]
      exact h

theorem IsBuilt.grows {x : Compiling σ α} (hx : IsBuilt d x) {s t : World σ × Progress} {r : Except Failure α}
    (h : x.outcome s = (r, t)) : s.1.catalog.Grows t.1.catalog := by
  have hreaches := hx.reaches s
  unfold Meets at hreaches
  rw [h] at hreaches
  exact hreaches.grows

end Compiling

open Compiling

/-! ## Sort keys -/

namespace Sorting

variable {d : Deployment σ}

theorem isBuilt_addChain (order : String) (labels : List String) :
    ∀ (last : Option String) (s : Sorting), IsBuilt d (act (addChain order labels last s)) := by
  induction labels with
  | nil => exact fun _ _ => .pure _
  | cons label rest ih =>
      intro last s
      rw [addChain]
      split
      · exact ih _ _
      · have hstep : ∀ k : Property → Int → Action σ Sorting,
            (catalog >>= fun c => numberOf (.property (c.findProperty label)) >>= fun n =>
                k (c.findProperty label) n) =
              (Sorting.property label : Action σ (Property × Int)) >>= fun found =>
                k found.1 found.2 := fun _ => rfl
        rw [hstep fun p n => addChain order rest (some (Field.inGroup (Field.group n) (Field.ofProperty p)))
          (s.addField (Field.inGroup (Field.group n) (Field.sortOf p)) order)]
        exact IsBuilt.act_bind (.sortProperty label) fun _ => ih _ _

theorem isBuilt_addKey (scoreKey : String) (s : Sorting) (key : String × String) :
    IsBuilt d (act (addKey scoreKey s key)) := by
  unfold addKey
  dsimp only
  -- whether the key stands for the score decides on its label as well
  split <;> split
  · exact .pure _
  · exact isBuilt_addChain _ _ _ _
  · exact .pure _
  · exact isBuilt_addChain _ _ _ _

end Sorting

namespace Deployment

variable (d : Deployment σ)

theorem isBuilt_sorting (keys : Table String String) (relevance : Option String) :
    IsBuilt d (act (d.sorting keys relevance)) := by
  have hkeys : ∀ (keys : Table String String) (s : Sorting),
      IsBuilt d (act (keys.foldlM (Sorting.addKey d.settings.query.scoreKey) s)) := by
    intro keys
    induction keys with
    | nil => exact fun _ => .pure _
    | cons key rest ih =>
        intro s
        rw [List.foldlM_cons]
        exact IsBuilt.act_bind (Sorting.isBuilt_addKey _ _ _) fun _ => ih _
  cases relevance with
  | some order => exact .pure _
  | none => exact hkeys keys {}

/-! ## Leaves -/

theorem isBuilt_below (item : Numbered) (depth : Option Int) :
    IsBuilt d (act (below item depth : Action σ (List Int))) := by
  unfold below
  rw [act_bind]
  refine .onCatalog (fun c c' hhierarchy _ => ?_) fun c => IsBuilt.act_mapM (fun _ => .numberOf _) _
  unfold Catalog.members
  rw [hhierarchy]

theorem isBuilt_propertySite (p : Property) (depth : Option Int) :
    IsBuilt d (act (d.propertySite p depth)) :=
  IsBuilt.act_bind (.numberOf _) fun _ => IsBuilt.act_bind (d.isBuilt_below _ _) fun _ => .pure _

theorem isBuilt_categoryClause (isMember : Bool) (categories : List Entity) (depth : Option Int)
    (negated : Bool) : IsBuilt d (act (d.categoryClause isMember categories depth negated)) := by
  refine IsBuilt.act_bind (.numberOf _) fun _ => IsBuilt.act_bind (IsBuilt.act_mapM (fun _ =>
    IsBuilt.act_bind (.numberOf _) fun _ => .pure _) _) fun _ => ?_
  exact IsBuilt.act_bind (IsBuilt.act_mapM (fun _ => IsBuilt.act_bind (d.isBuilt_below _ _) fun _ =>
    .pure _) _) fun _ => .pure _

theorem isBuilt_namedSite (condition : Description) (p : Property) :
    IsBuilt d (act (namedSite condition p)) := by
  unfold namedSite
  refine IsBuilt.act_bind (.numberOf _) fun n => ?_
  dsimp only
  split
  · exact IsBuilt.act_bind (.act_ofExcept condition.own_queryText) fun _ =>
      IsBuilt.act_bind (.throw rfl) fun _ => IsBuilt.act_bind (d.isBuilt_below _ _) fun _ => .pure _
  · exact IsBuilt.act_bind (d.isBuilt_below _ _) fun _ => .pure _

theorem isBuilt_siteValue (site : Site) (item : Item) (c : Comparator) :
    IsBuilt d (act (siteValue site item c)) := by
  unfold siteValue
  split
  · split
    · exact IsBuilt.act_bind (.numberOf _) fun _ => .pure _
    · exact .pure _
  · exact IsBuilt.act_bind (.act_ofExcept item.own_searchValue) fun _ => .pure _

theorem isBuilt_arrayValue (array : String) (item : Item) (c : Comparator) :
    IsBuilt d (act (arrayValue array item c)) := by
  unfold arrayValue
  split
  · split
    · exact IsBuilt.act_bind (.numberOf _) fun _ => .pure _
    · exact .pure _
  · exact .pure _
  · exact IsBuilt.act_bind (.act_ofExcept item.own_searchValue) fun _ => .pure _

theorem isBuilt_entityClause (isMember : Bool) (item : Item) (comparator : Comparator)
    (property : Option Property) : IsBuilt d (d.entityClause isMember item comparator property) := by
  unfold entityClause
  refine IsBuilt.bind ?_ fun site => (d.isBuilt_siteValue _ _ _).bind fun found => ?_
  · split
    · exact .pure _
    · exact d.isBuilt_namedSite _ _
  · dsimp only
    split
    · exact (IsBuilt.ofExcept (Description.own_queryText _)).bind fun _ =>
        (IsBuilt.report _).bind fun _ => .pure _
    · exact (IsBuilt.ofExcept (Condition.own_ofEntity _ _ _ _ _)).bind fun _ => .pure _

theorem isBuilt_inverseClause (p : Property) (group text : String) (c : Comparator)
    (value clause : Json) : IsBuilt d (d.inverseClause p group text c value clause) := by
  unfold inverseClause
  dsimp only
  split
  · exact .lookUp (.inverse _ _ _)
  · exact (IsBuilt.lookUp (.plain _ _ _)).bind fun _ =>
      (IsBuilt.ofExcept (Clause.own_fieldFilter _ _)).bind fun _ => .lookUp (.inverse _ _ _)

theorem isBuilt_propertyCondition (p : Property) (group : String) (item : Item)
    (comparator : Comparator) (property : Option Property) :
    IsBuilt d (d.propertyCondition p group item comparator property) := by
  refine (d.isBuilt_arrayValue _ _ _).bind fun found =>
    (IsBuilt.ofExcept (Condition.own_ofProperty _ _ _ _ _ _ _ _)).bind fun m => ?_
  split
  · exact .pure _
  · exact (IsBuilt.ofExcept (Description.own_queryText _)).bind fun _ =>
      (d.isBuilt_inverseClause _ _ _ _ _ _).bind fun _ => .pure _

/-! ## Properties and compounds -/

theorem isBuilt_visit (node : Description) : IsBuilt d (d.visit node) := by
  unfold visit
  split
  · exact (IsBuilt.ofExcept node.own_portrait).bind fun _ => .note fun _ _ => rfl
  · exact .pure _

theorem isBuilt_valueClause (path : List Nat) (p : Property) (site : String × List Int) (item : Item)
    (comparator : Comparator) (property : Option Property) :
    IsBuilt d (d.valueClause path p site item comparator property) := by
  refine (d.isBuilt_propertyCondition _ _ _ _ _).bind fun m => ?_
  dsimp only
  split
  · unfold negatedClause
    dsimp only
    split
    · exact (IsBuilt.note fun _ _ => rfl).bind fun _ => .pure _
    · exact .pure _
  · exact .pure _

theorem isBuilt_objectClause (p : Property) (group text : String) (clauses : List Json) :
    IsBuilt d (d.objectClause p group text clauses) := by
  unfold objectClause
  split
  · exact .pure _
  · refine (IsBuilt.lookUp (.plain _ _ _)).bind fun found => ?_
    dsimp only
    split
    · exact (IsBuilt.ofExcept (Clause.own_fieldFilter _ _)).bind fun _ =>
        (IsBuilt.lookUp (.inverse _ _ _)).bind fun _ => .pure _
    · exact .pure _

theorem isBuilt_chainClause (p : Property) (field : String) (rest : Description)
    (clause : Option Json) : IsBuilt d (d.chainClause p field rest clause) := by
  unfold chainClause
  split
  · exact .pure _
  · split
    · exact .pure _
    · exact (IsBuilt.ofExcept rest.own_queryText).bind fun _ =>
        (IsBuilt.ofExcept (Clause.own_fieldFilter _ _)).bind fun _ =>
          (IsBuilt.lookUp (.inverse _ _ _)).bind fun _ => .pure _

theorem isBuilt_linked (chain : Option String) (p : Property) (whole : Description)
    (clause : Option Json) : IsBuilt d (d.linked chain p whole clause) := by
  unfold linked
  split
  · exact .pure _
  · split
    · exact .pure _
    · exact (IsBuilt.ofExcept whole.own_queryText).bind fun _ =>
        (IsBuilt.lookUp (.chain _ _ _ _)).bind fun _ => .pure _

theorem isBuilt_disjoined (clauses : List (List Nat × Json)) :
    IsBuilt d (disjoined clauses : Compiling σ (Option Json)) := by
  unfold disjoined
  split
  · exact .pure _
  · exact .onProgress (fun _ _ => rfl) fun _ => .pure _

theorem isBuilt_conceptClause (c : Entity) (inner : Description) (clause : Option Json) :
    IsBuilt d (d.conceptClause c inner clause) := by
  unfold conceptClause
  split
  · exact .pure _
  · split
    · exact .pure _
    · exact (IsBuilt.numberOf _).bind fun _ => (IsBuilt.lookUp (.concept _ _ _ _)).bind fun _ => .pure _

/-! ## The traversal -/

variable {d}

/-- A property before another one: what lies behind it is compiled in between. -/
theorem isBuilt_chained {x : String → Compiling σ (Option Json)} (h : ∀ field, IsBuilt d (x field))
    (chain : Option String) (p : Property) (depth : Option Int) (rest : Description) :
    IsBuilt d (do
      let site ← .act (d.propertySite p depth)
      let clause ← x (Field.inGroup site.1 Field.numbers)
      let clause ← d.chainClause p (Field.inGroup site.1 Field.numbers) rest clause
      d.linked chain p (.someProperty p rest depth) clause) :=
  (d.isBuilt_propertySite _ _).bind fun _ => (h _).bind fun _ =>
    (d.isBuilt_chainClause _ _ _ _).bind fun _ => d.isBuilt_linked _ _ _ _

mutual

/-- By induction on the description. -/
theorem isBuilt_node {expand : Expansion σ} (h : ∀ isMember path c, IsBuilt d (expand isMember path c))
    (isMember : Bool) (path : List Nat) :
    (node : Description) → IsBuilt d (d.compileNode expand isMember path node)
  | .conjunction ds => by
      rw [compileNode]
      exact (d.isBuilt_visit _).bind fun _ => (isBuilt_members h path 0 ds).bind fun _ => .pure _
  | .disjunction ds => by
      rw [compileNode]
      exact (d.isBuilt_visit _).bind fun _ => (isBuilt_members h path 0 ds).bind fun _ =>
        d.isBuilt_disjoined _
  | .category categories depth negated => by
      rw [compileNode]
      exact (d.isBuilt_visit _).bind fun _ => (d.isBuilt_categoryClause _ _ _ _).bind fun _ => .pure _
  | .concept c => by
      rw [compileNode]
      exact (d.isBuilt_visit _).bind fun _ => h isMember path c
  | .space n => by
      rw [compileNode]
      exact (d.isBuilt_visit _).bind fun _ => .pure _
  | .someProperty p inner depth => by
      rw [compileNode]
      exact (d.isBuilt_visit _).bind fun _ => isBuilt_property h path none p depth inner
  | .value item comparator property => by
      rw [compileNode]
      exact (d.isBuilt_visit _).bind fun _ => (d.isBuilt_entityClause _ _ _ _).bind fun _ => .pure _
  | .thing negated => by
      rw [compileNode]
      exact (d.isBuilt_visit _).bind fun _ => .pure _

theorem isBuilt_members {expand : Expansion σ}
    (h : ∀ isMember path c, IsBuilt d (expand isMember path c)) (path : List Nat) :
    (i : Nat) → (ds : List Description) → IsBuilt d (d.compileMembers expand path i ds)
  | _, [] => by
      rw [compileMembers]
      exact .pure _
  | i, m :: ms => by
      rw [compileMembers]
      exact (isBuilt_node h true (path ++ [i]) m).bind fun _ => (isBuilt_members h path (i + 1) ms).bind
        fun _ => .pure _

theorem isBuilt_property {expand : Expansion σ}
    (h : ∀ isMember path c, IsBuilt d (expand isMember path c)) (path : List Nat)
    (chain : Option String) (p : Property) (depth : Option Int) :
    (inner : Description) → IsBuilt d (d.compileProperty expand path chain p depth inner)
  | .someProperty q (.disjunction ds) qdepth => by
      rw [compileProperty]
      exact (d.isBuilt_propertySite _ _).bind fun _ =>
        (isBuilt_alternatives h (path ++ [0]) _ q qdepth 0 ds).bind fun _ =>
          (d.isBuilt_chainClause _ _ _ _).bind fun _ => d.isBuilt_linked _ _ _ _
  | .someProperty q (.conjunction ds) qdepth =>
      isBuilt_chained (fun field => isBuilt_property h (path ++ [0]) (some field) q qdepth
        (.conjunction ds)) chain p depth _
  | .someProperty q (.category cs cdepth negated) qdepth =>
      isBuilt_chained (fun field => isBuilt_property h (path ++ [0]) (some field) q qdepth
        (.category cs cdepth negated)) chain p depth _
  | .someProperty q (.concept c) qdepth =>
      isBuilt_chained (fun field => isBuilt_property h (path ++ [0]) (some field) q qdepth
        (.concept c)) chain p depth _
  | .someProperty q (.space n) qdepth =>
      isBuilt_chained (fun field => isBuilt_property h (path ++ [0]) (some field) q qdepth
        (.space n)) chain p depth _
  | .someProperty q (.someProperty q' inner' depth') qdepth =>
      isBuilt_chained (fun field => isBuilt_property h (path ++ [0]) (some field) q qdepth
        (.someProperty q' inner' depth')) chain p depth _
  | .someProperty q (.value item comparator property) qdepth =>
      isBuilt_chained (fun field => isBuilt_property h (path ++ [0]) (some field) q qdepth
        (.value item comparator property)) chain p depth _
  | .someProperty q (.thing negated) qdepth =>
      isBuilt_chained (fun field => isBuilt_property h (path ++ [0]) (some field) q qdepth
        (.thing negated)) chain p depth _
  | .value item comparator property => by
      rw [compileProperty]
      exact (d.isBuilt_propertySite _ _).bind fun _ => (d.isBuilt_valueClause _ _ _ _ _ _).bind fun _ =>
        d.isBuilt_linked _ _ _ _
  | .thing negated => by
      rw [compileProperty]
      exact (d.isBuilt_propertySite _ _).bind fun _ => d.isBuilt_linked _ _ _ _
  | .disjunction ds => by
      rw [compileProperty]
      exact (d.isBuilt_propertySite _ _).bind fun _ =>
        (isBuilt_alternatives h (path ++ [0]) none p depth 0 ds).bind fun _ => d.isBuilt_linked _ _ _ _
  | .conjunction ds => by
      rw [compileProperty]
      exact (d.isBuilt_propertySite _ _).bind fun _ =>
        (IsBuilt.ofExcept (Description.own_queryText _)).bind fun _ =>
          (isBuilt_members h (path ++ [0]) 0 ds).bind fun _ =>
            (d.isBuilt_objectClause _ _ _ _).bind fun _ => d.isBuilt_linked _ _ _ _
  | .category categories categoryDepth negated => by
      rw [compileProperty]
      exact (d.isBuilt_propertySite _ _).bind fun _ =>
        (IsBuilt.ofExcept (Description.own_queryText _)).bind fun _ => (d.isBuilt_visit _).bind fun _ =>
          (d.isBuilt_categoryClause _ _ _ _).bind fun _ => (d.isBuilt_objectClause _ _ _ _).bind fun _ =>
            d.isBuilt_linked _ _ _ _
  | .concept c => by
      rw [compileProperty]
      exact (d.isBuilt_propertySite _ _).bind fun _ =>
        (IsBuilt.ofExcept (Description.own_queryText _)).bind fun _ => (d.isBuilt_visit _).bind fun _ =>
          (h true (path ++ [0]) c).bind fun _ => (d.isBuilt_objectClause _ _ _ _).bind fun _ =>
            d.isBuilt_linked _ _ _ _
  | .space n => by
      rw [compileProperty]
      exact (d.isBuilt_propertySite _ _).bind fun _ =>
        (IsBuilt.ofExcept (Description.own_queryText _)).bind fun _ => (d.isBuilt_visit _).bind fun _ =>
          (d.isBuilt_objectClause _ _ _ _).bind fun _ => d.isBuilt_linked _ _ _ _

theorem isBuilt_alternatives {expand : Expansion σ}
    (h : ∀ isMember path c, IsBuilt d (expand isMember path c)) (path : List Nat)
    (chain : Option String) (p : Property) (depth : Option Int) :
    (i : Nat) → (ds : List Description) →
    IsBuilt d (d.compileAlternatives expand path chain p depth i ds)
  | _, [] => by
      rw [compileAlternatives]
      exact .pure _
  | i, m :: ms => by
      rw [compileAlternatives]
      exact (isBuilt_property h (path ++ [i]) chain p depth m).bind fun _ =>
        (isBuilt_alternatives h path chain p depth (i + 1) ms).bind fun _ => .pure _

end

/-! ## Concepts -/

/-- By induction on how many expansions may lie within each other. -/
theorem isBuilt_expandConcept (n : Nat) :
    ∀ isMember path c, IsBuilt d (d.expandConcept n isMember path c) := by
  induction n with
  | zero => exact fun _ _ _ => .pure _
  | succ n ih =>
      intro isMember path c
      unfold expandConcept compileConcept
      refine .onCatalog (fun c₁ c₂ _ hconcepts => ?_) fun known => ?_
      · unfold Catalog.query?
        rw [hconcepts]
      split
      · exact .pure _
      · exact .pure _
      · split
        · exact (IsBuilt.ofExcept (Description.own_queryText _)).bind fun _ =>
            (IsBuilt.report _).bind fun _ => .pure _
        · refine .onProgress (fun _ _ => rfl) fun p => ?_
          split
          · exact (IsBuilt.ofExcept (Description.own_queryText _)).bind fun _ =>
              (IsBuilt.report _).bind fun _ => .pure _
          · exact (IsBuilt.expandingOf _ (isBuilt_node ih _ _ _)).bind fun _ =>
              d.isBuilt_conceptClause _ _ _

variable (d)

theorem isBuilt_compileTree (isMember : Bool) (description : Description) :
    IsBuilt d (d.compileTree isMember description) := by
  unfold compileTree
  refine .onCatalog (fun c c' _ hconcepts => ?_) fun known =>
    isBuilt_node (isBuilt_expandConcept _) _ _ _
  dsimp only
  rw [hconcepts]

end Deployment

end FactIndex
