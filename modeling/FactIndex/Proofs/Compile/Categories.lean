import FactIndex.Proofs.Compile.Inverse
import FactIndex.Proofs.Compile.Membership
import FactIndex.Proofs.Compile.Steps

/-!
# Categories in another order

The condition on categories takes them in the order of their numbers. Categories with the same number
have the same hash and so the same hierarchy, so that in which order they are named makes no difference:
neither to the clause nor to the numbers that are given while it is compiled.

Nor does it make a difference to a compound that the condition is a member of. Only the text of the
description is another one, and with it the record of the visited nodes.

## Main definitions

* `Catalog.TellsApart`: categories whose numbers are known and tell their hashes apart.
* `Description.Frame`: the compounds around a node.
* `Compiling.sameTie`: two runs in the same world, whose catalog has grown.
* `Deployment.categoryClauses_perm`: the clauses on categories in another order.
* `Deployment.compile_category_perm`: the query of categories in another order.
-/

namespace FactIndex

open FactIndex.Effect FactIndex.Compiling

variable {σ α β : Type}

/-! ## In the order of the numbers -/

/-- Categories have numbers already, and those with different hashes have different ones. -/
structure Catalog.TellsApart (c : Catalog) (categories : List Entity) : Prop where
  known : ∀ e ∈ categories, c.Knows (.entity e)
  apart : ∀ e ∈ categories, ∀ e' ∈ categories,
    c.numberOf? (.entity e) = c.numberOf? (.entity e') → e.hash = e'.hash

namespace Catalog

/-- The number of a category that is known. -/
def knownNumber (c : Catalog) (e : Entity) : Int := (c.numberOf? (.entity e)).getD 0

theorem numberOf?_of_known {c : Catalog} {e : Entity} (h : c.Knows (.entity e)) :
    c.numberOf? (.entity e) = some (c.knownNumber e) := by
  obtain ⟨n, hn⟩ := h
  rw [knownNumber, hn, Option.getD_some]

namespace TellsApart

variable {c c' : Catalog} {categories : List Entity}

/-- Numbers that are known stay, and stay different. -/
theorem grows (h : c.TellsApart categories) (hgrows : c.Grows c') : c'.TellsApart categories where
  known e he := hgrows.knows (h.known e he)
  apart e he e' he' hsame := by
    have hnumber := numberOf?_of_known (h.known e he)
    have hnumber' := numberOf?_of_known (h.known e' he')
    refine h.apart e he e' he' ?_
    rw [numberOf?, hgrows.numbers _ _ hnumber, numberOf?, hgrows.numbers _ _ hnumber'] at hsame
    rw [hnumber, hnumber', hsame]

theorem hash_eq (h : c.TellsApart categories) {e e' : Entity} (he : e ∈ categories)
    (he' : e' ∈ categories) (hsame : c.knownNumber e = c.knownNumber e') : e.hash = e'.hash :=
  h.apart e he e' he' (by
    rw [numberOf?_of_known (h.known e he), numberOf?_of_known (h.known e' he'), hsame])

end TellsApart

end Catalog

/-- Numbers and hashes in the order of the numbers, whatever the order before: where two numbers are
equal, so are the hashes. -/
theorem inOrder_perm {items items' : List (Int × Entity)} (hperm : items.Perm items')
    (h : ∀ a ∈ items, ∀ b ∈ items, a.1 = b.1 → a.2.hash = b.2.hash) :
    (items.mergeSort fun a b => a.1 ≤ b.1).map (fun m => (m.1, m.2.hash)) =
      (items'.mergeSort fun a b => a.1 ≤ b.1).map fun m => (m.1, m.2.hash) := by
  have hsorted : ∀ ms : List (Int × Entity), ((ms.mergeSort fun a b => a.1 ≤ b.1).map
      fun m => (m.1, m.2.hash)).Pairwise fun a b => a.1 ≤ b.1 := by
    intro ms
    rw [List.pairwise_map]
    have hpairwise : (ms.mergeSort fun a b => a.1 ≤ b.1).Pairwise fun a b => decide (a.1 ≤ b.1) = true :=
      List.pairwise_mergeSort
        (fun a b c hab hbc => by simp only [decide_eq_true_eq] at *; exact hab.trans hbc)
        (fun a b => by simpa using le_total a.1 b.1) ms
    exact hpairwise.imp of_decide_eq_true
  have hmem : ∀ {ms : List (Int × Entity)} {x : Int × String},
      x ∈ (ms.mergeSort fun a b => a.1 ≤ b.1).map (fun m => (m.1, m.2.hash)) →
        ∃ m ∈ ms, (m.1, m.2.hash) = x := by
    intro ms x hx
    obtain ⟨m, hm, rfl⟩ := List.mem_map.mp hx
    exact ⟨m, List.mem_mergeSort.mp hm, rfl⟩
  refine List.Perm.eq_of_pairwise (fun x y hx hy hxy hyx => ?_) (hsorted items) (hsorted items')
    ((List.mergeSort_perm items _).trans (hperm.trans (List.mergeSort_perm items' _).symm)|>.map _)
  obtain ⟨a, ha, rfl⟩ := hmem hx
  obtain ⟨b, hb, rfl⟩ := hmem hy
  have hnumber : a.1 = b.1 := le_antisymm hxy hyx
  exact Prod.ext hnumber (h a ha b (hperm.mem_iff.mpr hb) hnumber)

namespace Deployment

variable {d : Deployment σ}

/-- Of a category, its number and its hash count. -/
theorem oneCategory_congr (field : String) (depth : Option Int) {a b : Int × Entity}
    (h : (a.1, a.2.hash) = (b.1, b.2.hash)) :
    d.oneCategory field depth a = d.oneCategory field depth b := by
  obtain ⟨hnumber, hhash⟩ := Prod.mk.inj h
  have hmembers : ∀ c : Catalog, c.members (.entity a.2) = c.members (.entity b.2) := fun c => by
    rw [Catalog.members, Catalog.members, Numbered.key, Numbered.key, hhash]
  simp only [oneCategory, below, hmembers, hnumber]

theorem mapM_oneCategory_congr (field : String) (depth : Option Int) {items items' : List (Int × Entity)}
    (h : items.map (fun m => (m.1, m.2.hash)) = items'.map fun m => (m.1, m.2.hash)) :
    items.mapM (d.oneCategory field depth) = items'.mapM (d.oneCategory field depth) := by
  induction items generalizing items' with
  | nil =>
      obtain rfl := List.map_eq_nil_iff.mp h.symm
      rfl
  | cons a items ih =>
      obtain ⟨b, rest, rfl, hfirst, hrest⟩ := List.map_eq_cons_iff.mp h.symm
      rw [List.mapM_cons, List.mapM_cons, ih hrest.symm, oneCategory_congr field depth hfirst.symm]

/-- The clauses come to the same in the same order, and the same things are given numbers. -/
theorem categoryClauses_perm {w : World σ} {categories categories' : List Entity}
    (hperm : categories.Perm categories') (h : w.catalog.TellsApart categories) (depth : Option Int) :
    (d.categoryClauses categories depth).outcome w = (d.categoryClauses categories' depth).outcome w := by
  obtain ⟨i, c, hi, hgrows, -⟩ := exists_number (.property Property.instanceOf) w
  have hapart := h.grows hgrows
  have hnumbered : ∀ es : List Entity, (∀ e ∈ es, e ∈ categories) →
      (es.mapM fun e => do return (← numberOf (.entity e), e)).outcome { w with catalog := c } =
        (.ok (es.map fun e => (c.knownNumber e, e)), { w with catalog := c }) := by
    refine fun es hes => outcome_mapM es fun e he => ?_
    exact outcome_bind_of_ok (outcome_numberOf
      (Catalog.numberOf?_of_known (hapart.known e (hes e he)))) _
  have hinOrder := inOrder_perm (hperm.map fun e => (c.knownNumber e, e)) (by
    intro a ha b hb hsame
    obtain ⟨e, he, rfl⟩ := List.mem_map.mp ha
    obtain ⟨e', he', rfl⟩ := List.mem_map.mp hb
    exact hapart.hash_eq he he' hsame)
  unfold categoryClauses
  rw [outcome_bind_of_ok hi, outcome_bind_of_ok hi,
    outcome_bind_of_ok (hnumbered categories fun _ => id),
    outcome_bind_of_ok (hnumbered categories' fun _ => hperm.mem_iff.mpr),
    mapM_oneCategory_congr _ depth hinOrder]

theorem categoryClause_perm {w : World σ} {categories categories' : List Entity}
    (hperm : categories.Perm categories') (h : w.catalog.TellsApart categories) (isMember : Bool)
    (depth : Option Int) (negated : Bool) :
    (d.categoryClause isMember categories depth negated).outcome w =
      (d.categoryClause isMember categories' depth negated).outcome w := by
  rw [categoryClause_eq, categoryClause_eq, outcome_bind, outcome_bind, categoryClauses_perm hperm h,
    hperm.length_eq]

end Deployment

/-! ## Two runs in the same world -/

namespace Compiling

/-- Two runs in the same world, whose catalog has grown from a given one. -/
def sameTie (σ : Type) (c : Catalog) : Tie σ where
  base s s' := s = s' ∧ c.Grows s.1.catalog
  fine _ := True

theorem isKept_sameTie (d : Deployment σ) (c : Catalog) : (sameTie σ c).IsKept d where
  catalog h := by rw [h.1]
  setCatalog h c' hc' := ⟨by rw [h.1], h.2.trans hc'⟩
  fine_setCatalog _ _ := trivial
  call call s s' hs _ _ := by
    obtain ⟨hsame, hgrows⟩ := hs
    obtain ⟨hworld, hrecords⟩ := Prod.mk.inj hsame
    have hkept := keepsCatalog_call (d := d) call s.1
    rcases hr : (call.run d).outcome s.1 with ⟨e | r, v⟩ <;> rw [hr] at hkept
    · rw [outcome_lookUp_of_error hr, outcome_lookUp_of_error (hworld ▸ hr)]
      trivial
    · rw [outcome_lookUp_of_ok hr, outcome_lookUp_of_ok (hworld ▸ hr)]
      refine ⟨rfl, ?_, hkept ▸ hgrows⟩
      rw [stage, stage, hrecords]
  fine_call _ _ _ := trivial

end Compiling

namespace Deployment

open Compiling

variable {T : Tie σ} {d : Deployment σ} {path path' : List Nat}

/-- Two nodes are visited alike if both have a text, or none has one. -/
theorem agree_visits {node node' : Description}
    (h : (∃ ms, node.portrait = .ok ms) ↔ ∃ ms, node'.portrait = .ok ms) :
    Agree T d.settings.query.negatedExists path path' Eq (d.visit node) (d.visit node') := by
  have hself : ∀ (path : List Nat) (node : Description),
      Agree T d.settings.query.negatedExists path path Eq (d.visit node) (d.visit node) :=
    fun _ node => agree_visit node
  refine ⟨(hself path node).left, (hself path' node').right, fun s s' hs _ _ => ?_⟩
  unfold visit
  split
  · cases hportrait : node.portrait <;> cases hportrait' : node'.portrait <;>
      simp only [hportrait, hportrait', reduceCtorEq, exists_false, Except.ok.injEq, exists_eq',
        iff_true, true_iff] at h
    · trivial
    · exact ⟨rfl, hs.base, hs.expanding, hs.negated⟩
  · exact ⟨rfl, hs⟩

theorem agree_categoryClause_perm {c : Catalog} {categories categories' : List Entity}
    (hperm : categories.Perm categories') (h : c.TellsApart categories) (isMember : Bool)
    (depth : Option Int) (negated : Bool) :
    Agree (sameTie σ c) d.settings.query.negatedExists path path' Eq
      (act (d.categoryClause isMember categories depth negated))
      (act (d.categoryClause isMember categories' depth negated)) := by
  have hself : ∀ (path path' : List Nat) (categories : List Entity),
      Agree (sameTie σ c) d.settings.query.negatedExists path path' Eq
        (act (d.categoryClause isMember categories depth negated)) (act (d.categoryClause isMember
          categories depth negated)) := fun _ _ _ =>
    Agree.onCatalog (isKept_sameTie d c) (d.onCatalog_categoryClause _ _ _ _)
  refine ⟨(hself path path categories).left, (hself path' path' categories').left,
    fun s s' hs hfine hfine' => ?_⟩
  have hsame : (act (d.categoryClause isMember categories depth negated)).outcome s =
      (act (d.categoryClause isMember categories' depth negated)).outcome s := by
    rw [outcome_act, outcome_act, categoryClause_perm (w := s.1) hperm (h.grows hs.base.2)]
  rw [hsame]
  exact (hself path path' categories').coincide s s' hs (hsame ▸ hfine) hfine'

end Deployment

/-! ## Compounds around a node -/

namespace Description

/-- The compounds around a node, the outermost one first: it is the whole description, or among the
members of a conjunction or a disjunction. -/
inductive Frame where
  | root
  | conjunction (before : List Description) (inner : Frame) (after : List Description)
  | disjunction (before : List Description) (inner : Frame) (after : List Description)

/-- The description with a node at the place that a frame leaves free. -/
def Frame.fill (node : Description) : Frame → Description
  | .root => node
  | .conjunction before inner after => .conjunction (before ++ inner.fill node :: after)
  | .disjunction before inner after => .disjunction (before ++ inner.fill node :: after)

theorem allTimes_among {m m' : Description} (h : m.times = m'.times) (before after : List Description) :
    allTimes (before ++ m :: after) = allTimes (before ++ m' :: after) := by
  induction before with
  | nil => rw [List.nil_append, List.nil_append, allTimes, allTimes, h]
  | cons b before ih => rw [List.cons_append, List.cons_append, allTimes, allTimes, ih]

theorem Frame.times_fill {node node' : Description} (h : node.times = node'.times) (frame : Frame) :
    (frame.fill node).times = (frame.fill node').times := by
  induction frame with
  | root => exact h
  | conjunction before inner after ih | disjunction before inner after ih =>
      exact allTimes_among ih before after

theorem isOk_portrait_congr {node node' : Description} (h : node.times = node'.times) :
    (∃ ms, node.portrait = .ok ms) ↔ ∃ ms, node'.portrait = .ok ms := by
  rw [isOk_portrait, isOk_portrait, h]

end Description

namespace Deployment

open Compiling

variable {T : Tie σ} {d : Deployment σ} {expand : Expansion σ}

/-- One member is another one, and the members around it are the same. -/
theorem agree_members_among (hT : T.IsKept d) (h : ExpandsAlong T d expand) (path path' : List Nat)
    {m m' : Description} (hm : ∀ path path', Agree T d.settings.query.negatedExists path path' Eq
      (d.compileNode expand true path m) (d.compileNode expand true path' m'))
    (before after : List Description) (i : Nat) :
    Agree T d.settings.query.negatedExists path path' (Alongside path path')
      (d.compileMembers expand path i (before ++ m :: after))
      (d.compileMembers expand path' i (before ++ m' :: after)) := by
  induction before generalizing i with
  | nil => exact agree_members_cons (hm _ _) (agree_members hT h path path' (i + 1) after)
  | cons b before ih => exact agree_members_cons (agree_node hT h true _ _ b) (ih (i + 1))

/-- Nodes that are compiled alike are so within compounds: by induction on the frame. -/
theorem agree_fill (hT : T.IsKept d) (h : ExpandsAlong T d expand) {node node' : Description}
    (htimes : node.times = node'.times)
    (hnode : ∀ isMember path path', Agree T d.settings.query.negatedExists path path' Eq
      (d.compileNode expand isMember path node) (d.compileNode expand isMember path' node'))
    (frame : Description.Frame) (isMember : Bool) (path path' : List Nat) :
    Agree T d.settings.query.negatedExists path path' Eq
      (d.compileNode expand isMember path (frame.fill node))
      (d.compileNode expand isMember path' (frame.fill node')) := by
  induction frame generalizing isMember path path' with
  | root => exact hnode isMember path path'
  | conjunction before inner after ih =>
      have hportrait := Description.isOk_portrait_congr
        (Description.Frame.times_fill htimes (.conjunction before inner after))
      rw [Description.Frame.fill, Description.Frame.fill, compileNode, compileNode]
      refine Agree.bind (agree_visits hportrait) fun _ =>
        (agree_members_among hT h path path' (ih true) before after 0).bind_of
          (fun _ => Tame.pure _) (fun _ => Tame.pure _) fun clauses clauses' hclauses => ?_
      exact Agree.pure (by rw [hclauses.clauses_eq])
  | disjunction before inner after ih =>
      have hportrait := Description.isOk_portrait_congr
        (Description.Frame.times_fill htimes (.disjunction before inner after))
      rw [Description.Frame.fill, Description.Frame.fill, compileNode, compileNode]
      exact Agree.bind (agree_visits hportrait) fun _ =>
        (agree_members_among hT h path path' (ih true) before after 0).bind_of
          (fun _ => tame_disjoined _) (fun _ => tame_disjoined _) fun _ _ => agree_disjoined

/-! ## The query -/

/-- Categories have a query of their own, which is the same in whatever order they are named. So is the
query of every description that they are part of by way of compounds, if there is one. -/
theorem compile_category_perm (d : Deployment σ) {w : World σ} {categories categories' : List Entity}
    (hperm : categories.Perm categories') (h : w.catalog.TellsApart categories) (depth : Option Int)
    (negated isMember : Bool) :
    (∃ query p p' after,
      (d.compile isMember (.category categories depth negated)).outcome w = (.ok (some query, p), after) ∧
      (d.compile isMember (.category categories' depth negated)).outcome w =
        (.ok (some query, p'), after)) ∧
    ∀ frame : Description.Frame, Coincide (fun a b => a.1 = b.1)
      ((d.compile isMember (frame.fill (.category categories depth negated))).outcome w).1
      ((d.compile isMember (frame.fill (.category categories' depth negated))).outcome w).1 := by
  constructor
  · obtain ⟨query, c, hquery, -⟩ := d.exists_categoryClause isMember categories depth negated w
    have hcompile : ∀ es : List Entity,
        (d.categoryClause isMember es depth negated).outcome w = (.ok query, { w with catalog := c }) →
        ∃ p, (d.compile isMember (.category es depth negated)).outcome w =
          (.ok (some query, p), { w with catalog := c }) := by
      intro es hes
      have hportrait : ∃ ms, (Description.category es depth negated).portrait = .ok ms :=
        (Description.isOk_portrait _).mpr (List.forall_mem_nil _)
      obtain ⟨p, hvisit, -⟩ := d.exists_visit (fun _ => hportrait) (w, {})
      have hact : (act (d.categoryClause isMember es depth negated)).outcome (w, p) =
          (.ok query, ({ w with catalog := c }, p)) := by rw [outcome_act, hes]
      refine ⟨p, ?_⟩
      rw [outcome_compile, compileNode, outcome_bind_of_ok hvisit, outcome_bind_of_ok hact]
      rfl
    obtain ⟨p, hp⟩ := hcompile categories hquery
    obtain ⟨p', hp'⟩ := hcompile categories' ((categoryClause_perm hperm h _ _ _).symm.trans hquery)
    exact ⟨query, p, p', _, hp, hp'⟩
  · intro frame
    have hT := isKept_sameTie d w.catalog
    have hexpand := agree_expandConcept hT (w.catalog.concepts.length + 1)
    have htimes : (Description.category categories depth negated).times =
        (Description.category categories' depth negated).times := rfl
    have hnode : ∀ isMember path path', Agree (sameTie σ w.catalog) d.settings.query.negatedExists
        path path' Eq
        (d.compileNode (d.expandConcept (w.catalog.concepts.length + 1)) isMember path
          (.category categories depth negated))
        (d.compileNode (d.expandConcept (w.catalog.concepts.length + 1)) isMember path'
          (.category categories' depth negated)) := by
      intro isMember path path'
      rw [compileNode, compileNode]
      exact Agree.bind (agree_visits (Description.isOk_portrait_congr htimes)) fun _ =>
        (agree_categoryClause_perm hperm h isMember depth negated).bind fun _ => Agree.pure rfl
    have hsame := (agree_fill hT hexpand htimes hnode frame isMember [] []).coincide (w, {}) (w, {})
      ⟨⟨rfl, .refl _⟩, rfl, fun _ => rfl⟩ trivial trivial
    rw [outcome_compile, outcome_compile]
    dsimp only
    generalize (d.compileNode (d.expandConcept (w.catalog.concepts.length + 1)) isMember []
      (frame.fill (.category categories depth negated))).outcome (w, {}) = run at hsame ⊢
    generalize (d.compileNode (d.expandConcept (w.catalog.concepts.length + 1)) isMember []
      (frame.fill (.category categories' depth negated))).outcome (w, {}) = run' at hsame ⊢
    rcases run with ⟨_ | a, t⟩ <;> rcases run' with ⟨_ | b, t'⟩
    · trivial
    · exact hsame
    · exact hsame
    · exact hsame.1

private def classStore : Deployment Unit where
  settings := {}
  client := ⟨fun _ s => (.error .connection, s)⟩
  cache := {}
  queue := {}

private def ports : Entity := { title := "Ports", space := Namespace.category }

private def rivers : Entity := { title := "Rivers", space := Namespace.category }

private def harbours : Entity := { title := "Harbours", space := Namespace.category }

/-- Below ports there are harbours, which have no number yet. -/
private def classWorld : World Unit where
  engine := ()
  catalog :=
    { next := 12
      numbers := [(.entity ports.hash, 11), (.entity rivers.hash, 10)]
      hierarchy := [(.entity ports.hash, [.entity harbours])] }

theorem compile_category_perm_repeated :
    [ports, rivers, ports].Perm [rivers, ports, ports] ∧
      classWorld.catalog.TellsApart [ports, rivers, ports] ∧
      (∃ query p p' after,
        (classStore.compile false (.category [ports, rivers, ports] none false)).outcome classWorld =
          (.ok (some query, p), after) ∧
        (classStore.compile false (.category [rivers, ports, ports] none false)).outcome classWorld =
          (.ok (some query, p'), after)) ∧
      Coincide (fun a b => a.1 = b.1)
        ((classStore.compile false (.conjunction
          [.category [ports, rivers, ports] none false, .space 0])).outcome classWorld).1
        ((classStore.compile false (.conjunction
          [.category [rivers, ports, ports] none false, .space 0])).outcome classWorld).1 := by
  have hperm : [ports, rivers, ports].Perm [rivers, ports, ports] := List.Perm.swap _ _ _
  have hapart : classWorld.catalog.TellsApart [ports, rivers, ports] := ⟨by decide, by decide⟩
  obtain ⟨halone, hwithin⟩ := compile_category_perm classStore hperm hapart none false false
  exact ⟨hperm, hapart, halone, hwithin (.conjunction [] .root [.space 0])⟩

end Deployment

end FactIndex
