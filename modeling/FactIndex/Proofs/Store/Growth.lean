import FactIndex.Proofs.Store.Catalog
import Mathlib.Logic.Relation

/-!
# How a catalog grows

A catalog grows by one number after the other. What is numbered first is numbered first in every catalog
that it grows into, so that of two catalogs on the way to a third one, one is on the way to the other.

## Main definitions

* `Catalog.Adds`: one thing more has a number.
* `Catalog.Reaches`: one thing after the other has been given a number.
* `Catalog.IsFiled`: every property is filed under its own key.
* `Catalog.Reaches.eq_or_reaches`: two catalogs on the way to a third one.
* `Catalog.findProperty_of_reaches`: a label stands for the property that is numbered next.
-/

namespace FactIndex

namespace Catalog

open Relation

variable {a b c r e : Catalog} {item : Numbered}

/-! ## One number more -/

/-- Something that had no number is given one. -/
def Adds (c c' : Catalog) : Prop :=
  ∃ item : Numbered, c.numbers.get? item.key = none ∧ c' = (c.number item).2

/-- One thing after the other is given a number. -/
abbrev Reaches : Catalog → Catalog → Prop := ReflTransGen Adds

/-- The catalog in which a new thing has been given the next number. -/
theorem number_of_new (h : c.numbers.get? item.key = none) :
    c.number item = (c.next, { c with
      next := c.next + 1
      numbers := c.numbers ++ [(item.key, c.next)]
      entities := match item with
        | .entity x => c.entities.put c.next x
        | .property _ => c.entities
      properties := match item with
        | .entity _ => c.properties
        | .property p => c.properties.put p.key p.direct }) := by
  have hput : c.numbers.put item.key c.next = c.numbers ++ [(item.key, c.next)] :=
    Table.put_of_not_mem (Table.get?_eq_none_iff.mp h) _
  unfold number
  rw [h]
  cases item with
  | entity x =>
      simp only [Numbered.key] at h hput ⊢
      simp only [add, addEntity, h, takeNumber, hput]
  | property p =>
      simp only [Numbered.key] at h hput ⊢
      simp only [add, addProperty, h, takeNumber, hput]

theorem adds_number (h : c.numbers.get? item.key = none) : c.Adds (c.number item).2 := ⟨item, h, rfl⟩

theorem reaches_number (c : Catalog) (item : Numbered) : c.Reaches (c.number item).2 := by
  cases h : c.numbers.get? item.key with
  | none => exact .single (adds_number h)
  | some n => rw [number_of_known c item h]

theorem Reaches.grows (h : c.Reaches e) : c.Grows e := by
  induction h with
  | refl => exact Grows.refl c
  | tail _ hadds ih =>
      obtain ⟨item, -, rfl⟩ := hadds
      exact ih.trans (grows_number _ item)

/-- New numbers come at the end. -/
theorem Reaches.numbers_prefix (h : c.Reaches e) : c.numbers <+: e.numbers := by
  induction h with
  | refl => exact List.prefix_rfl
  | tail _ hadds ih =>
      obtain ⟨item, hnew, rfl⟩ := hadds
      rw [number_of_new hnew]
      exact ih.trans (List.prefix_append _ _)

theorem Reaches.length_le (h : c.Reaches e) : c.numbers.length ≤ e.numbers.length :=
  h.numbers_prefix.length_le

theorem Adds.length_lt (h : c.Adds e) : c.numbers.length < e.numbers.length := by
  obtain ⟨item, hnew, rfl⟩ := h
  rw [number_of_new hnew]
  simp

/-- Catalogs that grow into each other are the same. -/
theorem Reaches.antisymm (h : c.Reaches e) (h' : e.Reaches c) : e = c := by
  rcases h.cases_head with rfl | ⟨b, hadds, hrest⟩
  · rfl
  · have hlt := hadds.length_lt
    have hle := Reaches.length_le (hrest.trans h')
    omega

/-! ## What stays -/

/-- What a thing is filed as once it has a number: under the number if it is an entity, and under its key
if it is a property. -/
def Files (c : Catalog) (n : Int) : Numbered → Prop
  | .entity x => c.entities.get? n = some x
  | .property p => c.properties.get? p.key = some p.direct

/-- A property that has a number stays what it is. -/
theorem Reaches.properties_eq (h : c.Reaches e) {key : String}
    (hknown : c.numbers.get? (.property key) ≠ none) :
    e.properties.get? key = c.properties.get? key := by
  induction h with
  | refl => rfl
  | @tail b _ hb hadds ih =>
      obtain ⟨item, hnew, rfl⟩ := hadds
      obtain ⟨n, hn⟩ := Option.ne_none_iff_exists'.mp hknown
      have hstill : b.numbers.get? (.property key) = some n := (Reaches.grows hb).numbers _ _ hn
      rw [← ih, number_of_new hnew]
      cases item with
      | entity x => rfl
      | property p =>
          refine Table.get?_put_of_ne _ _ fun hkey => ?_
          have hsame : b.numbers.get? (.property key) = none := by rw [← hkey]; exact hnew
          rw [hstill] at hsame
          cases hsame

/-- What was given the next number is filed as that from then on. -/
theorem Reaches.files (hnew : c.numbers.get? item.key = none) (h : (c.number item).2.Reaches e) :
    e.Files c.next item := by
  have hfirst : (c.number item).2.Files c.next item ∧ c.next < (c.number item).2.next := by
    rw [number_of_new hnew]
    refine ⟨?_, Int.lt_succ _⟩
    cases item with
    | entity x => exact Table.get?_put_self _ _ _
    | property p => exact Table.get?_put_self _ _ _
  refine (show e.Files c.next item ∧ c.next < e.next from ?_).1
  induction h with
  | refl => exact hfirst
  | @tail b _ hb hadds ih =>
      obtain ⟨hfiles, hlt⟩ := ih
      have hstill : b.numbers.get? item.key ≠ none := by
        rw [(Reaches.grows hb).numbers _ _ (c.get?_number item)]
        exact Option.some_ne_none _
      obtain ⟨other, hother, rfl⟩ := hadds
      rw [number_of_new hother]
      refine ⟨?_, Int.lt_trans hlt (Int.lt_succ _)⟩
      cases item with
      | entity x =>
          cases other with
          | entity y => exact (Table.get?_put_of_ne _ _ (Int.ne_of_gt hlt)).trans hfiles
          | property q => exact hfiles
      | property p =>
          cases other with
          | entity y => exact hfiles
          | property q =>
              refine (Table.get?_put_of_ne _ _ fun hkey => hstill ?_).trans hfiles
              show b.numbers.get? (.property p.key) = none
              rw [← hkey]
              exact hother

/-! ## Two ways to the same catalog -/

/-- Only one thing is numbered next on the way to a catalog. -/
theorem Adds.unique (ha : c.Adds a) (hb : c.Adds b) (hae : a.Reaches e) (hbe : b.Reaches e) : a = b := by
  obtain ⟨x, hx, rfl⟩ := ha
  obtain ⟨y, hy, rfl⟩ := hb
  have hkey : x.key = y.key := by
    obtain ⟨more, hmore⟩ := hae.numbers_prefix
    obtain ⟨more', hmore'⟩ := hbe.numbers_prefix
    rw [number_of_new hx] at hmore
    rw [number_of_new hy] at hmore'
    have hsame := hmore.trans hmore'.symm
    simp only [List.append_assoc, List.append_cancel_left_eq, List.singleton_append,
      List.cons.injEq, Prod.mk.injEq] at hsame
    exact hsame.1.1
  have hfx := Reaches.files hx hae
  have hfy := Reaches.files hy hbe
  rw [number_of_new hx, number_of_new hy, hkey]
  cases x with
  | entity x =>
      cases y with
      | entity y =>
          obtain rfl : x = y := Option.some.inj (hfx.symm.trans hfy)
          rfl
      | property q => cases hkey
  | property p =>
      cases y with
      | entity y => cases hkey
      | property q =>
          have hpq : p.key = q.key := CatalogKey.property.inj hkey
          simp only [Files] at hfx hfy
          rw [hpq, hfy] at hfx
          have hdirect : q.direct = p.direct := Option.some.inj hfx
          simp only [hpq, hdirect]

/-- On the way to a catalog, what is numbered next is numbered already, or nothing has been numbered
yet. -/
theorem Reaches.eq_or_reaches (hcr : c.Reaches r) (hre : r.Reaches e) (hca : c.Adds a)
    (hae : a.Reaches e) : r = c ∨ a.Reaches r := by
  rcases hcr.cases_head with rfl | ⟨b, hadds, hbr⟩
  · exact .inl rfl
  · refine .inr ?_
    rwa [hca.unique hadds hae (hbr.trans hre)]

/-- A number is the same on the way to a catalog that has been given it, and further on that way. -/
theorem number_of_reaches (hcr : c.Reaches r) (hre : r.Reaches e)
    (hce : (c.number item).2.Reaches e) : (r.number item).1 = (c.number item).1 ∧
      (c.number item).2.Reaches (r.number item).2 ∧ (r.number item).2.Reaches e := by
  have hknown : (c.number item).2.Reaches r → (r.number item).1 = (c.number item).1 ∧
      (c.number item).2.Reaches (r.number item).2 ∧ (r.number item).2.Reaches e := by
    intro h
    rw [number_of_known r item (h.grows.numbers _ _ (c.get?_number item))]
    exact ⟨rfl, h, hre⟩
  cases hnumber : c.numbers.get? item.key with
  | some n =>
      refine hknown ?_
      rwa [number_of_known c item hnumber]
  | none =>
      rcases hcr.eq_or_reaches hre (adds_number hnumber) hce with rfl | h
      · exact ⟨rfl, .refl, hce⟩
      · exact hknown h

/-! ## Properties by their labels -/

/-- Every property is filed under its own key. -/
def IsFiled (c : Catalog) : Prop := ∀ key p, c.properties.get? key = some p → p.key = key

theorem IsFiled.reaches (h : c.IsFiled) (hce : c.Reaches e) : e.IsFiled := by
  induction hce with
  | refl => exact h
  | tail _ hadds ih =>
      obtain ⟨item, hnew, rfl⟩ := hadds
      rw [number_of_new hnew]
      cases item with
      | entity x => exact ih
      | property p =>
          intro key q hq
          by_cases hkey : p.key = key
          · have hself : q = p.direct := by
              subst hkey
              exact Option.some.inj (hq.symm.trans (Table.get?_put_self _ _ _))
            rw [hself]
            exact hkey
          · exact ih key q ((Table.get?_put_of_ne _ _ hkey).symm.trans hq)

/-- A label stands for the property that is filed under a key, or for a new one. -/
theorem exists_findProperty (label : String) : ∃ key inverse, ∀ c : Catalog,
    c.findProperty label = { (c.properties.get? key).getD { key := key } with inverse } :=
  ⟨_, _, fun _ => rfl⟩

/-- A label stands for the same property on the way to a catalog in which that property is numbered
next. -/
theorem findProperty_of_reaches (hfiled : c.IsFiled) (hcr : c.Reaches r) (hre : r.Reaches e)
    (label : String) (hce : (c.number (.property (c.findProperty label))).2.Reaches e) :
    r.findProperty label = c.findProperty label := by
  obtain ⟨key, inverse, hfind⟩ := exists_findProperty label
  have hkey : (c.findProperty label).key = key := by
    rw [hfind]
    cases hfound : c.properties.get? key with
    | none => rfl
    | some p => exact hfiled key p hfound
  have hsame : r = c ∨ r.properties.get? key = c.properties.get? key ∨
      r.properties.get? key = some (c.findProperty label).direct := by
    cases hnumber : c.numbers.get? (Numbered.property (c.findProperty label)).key with
    | some n =>
        refine .inr (.inl (hcr.properties_eq ?_))
        rw [← hkey]
        exact hnumber ▸ Option.some_ne_none n
    | none =>
        refine (hcr.eq_or_reaches hre (adds_number hnumber) hce).imp_right fun h => .inr ?_
        rw [← hkey]
        exact Reaches.files hnumber h
  rcases hsame with rfl | hsame | hsame
  · rfl
  · rw [hfind, hfind, hsame]
  · rw [hfind r, hsame, hfind c]
    rfl

end Catalog

end FactIndex
