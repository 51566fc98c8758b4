import FactIndex.Fact.Catalog
import Mathlib.Data.List.Induction

/-!
# Numbers of the caller's choice

An entity is given a number by its caller, or the next one when it is first asked for. What is given by
count does not depend on what callers have chosen, so that a number may be given twice. The entity that it
was given to first is not found under it any more.

As long as no number that is taken is given again, entities have numbers of their own and are found under
them. It is enough that callers choose numbers that are free and below the one with which the count begins.

## Main definitions

* `NumberCall`: a call that may give numbers, and what the catalog is after such calls.
* `NumberCall.chosen`, `NumberCall.drawn`: the number of a caller's choice, and that which comes next.
* `NumberCall.run_cases`: what a call does to entities.
* `Catalog.IsFaithful`: numbers tell entities apart and lead back to them.
* `NumberCall.isFaithful_run_iff`: when a call keeps it so.
* `NumberCall.isFaithful_after_iff`: when a sequence of calls does.
-/

namespace FactIndex

namespace Catalog

variable {c : Catalog}

/-! ## What becomes of entities -/

/-- An entity is given a number, and is found under it. -/
structure Gives (c c' : Catalog) (x : Entity) (n : Int) : Prop where
  number : ∀ hash, c'.numbers.get? (.entity hash) =
    if x.hash = hash then some n else c.numbers.get? (.entity hash)
  entity : ∀ m, c'.entity? m = if n = m then some x else c.entity? m

/-- No entity is given a number. -/
structure Spares (c c' : Catalog) : Prop where
  number : ∀ hash, c'.numbers.get? (.entity hash) = c.numbers.get? (.entity hash)
  entity : ∀ m, c'.entity? m = c.entity? m

theorem gives_addEntity (c : Catalog) (x : Entity) (n : Int) :
    Gives c (c.addEntity x (some n)).2 x n where
  number hash := by
    refine (Table.get?_put c.numbers (.entity x.hash) (.entity hash) n).trans ?_
    simp only [CatalogKey.entity.injEq]
  entity m := Table.get?_put c.entities n m x

/-- An entity that has no number is given the next one. -/
theorem addEntity_of_new {x : Entity} (h : c.numbers.get? (.entity x.hash) = none) :
    c.addEntity x = ({ c with next := c.next + 1 } : Catalog).addEntity x (some c.next) := by
  unfold addEntity
  rw [h]
  rfl

theorem addEntity_of_known {x : Entity} {n : Int} (h : c.numbers.get? (.entity x.hash) = some n) :
    c.addEntity x = (n, c) := by
  unfold addEntity
  rw [h]

/-- What has no number is added. -/
theorem number_eq_add {item : Numbered} (h : c.numbers.get? item.key = none) : c.number item = c.add item := by
  unfold number
  rw [h]

theorem number_eq_addEntity (c : Catalog) (x : Entity) : c.number (.entity x) = c.addEntity x := by
  cases h : c.numbers.get? (Numbered.entity x).key with
  | some n => rw [number_of_known c _ h, addEntity_of_known h]
  | none => exact number_eq_add h

theorem spares_addProperty (c : Catalog) (p : Property) (number : Option Int) :
    Spares c (c.addProperty p number).2 ∧ c.next ≤ (c.addProperty p number).2.next := by
  have hput : ∀ (t : Table CatalogKey Int) (n : Int) (hash : String),
      (t.put (.property p.key) n).get? (.entity hash) = t.get? (.entity hash) :=
    fun t n _ => Table.get?_put_of_ne t n nofun
  unfold addProperty
  dsimp only
  cases number with
  | some n => exact ⟨⟨hput _ n, fun _ => rfl⟩, Int.le_refl _⟩
  | none =>
      cases h : c.numbers.get? (.property p.key) with
      | some n => exact ⟨⟨fun _ => rfl, fun _ => rfl⟩, Int.le_refl _⟩
      | none => exact ⟨⟨hput _ c.next, fun _ => rfl⟩, Int.le_of_lt (Int.lt_succ _)⟩

theorem spares_number_property (c : Catalog) (p : Property) :
    Spares c (c.number (.property p)).2 ∧ c.next ≤ (c.number (.property p)).2.next := by
  cases h : c.numbers.get? (Numbered.property p).key with
  | some n =>
      rw [number_of_known c _ h]
      exact ⟨⟨fun _ => rfl, fun _ => rfl⟩, Int.le_refl _⟩
  | none =>
      rw [number_eq_add h]
      exact spares_addProperty c p none

end Catalog

/-! ## Numbers of the caller's choice -/

/-- A call that may give numbers. An entity or a property may be given one of the caller's choice. -/
inductive NumberCall where
  | entity (x : Entity) (number : Option Int)
  | property (p : Property) (number : Option Int)
  | concept (x : Entity) (query : String)
  | number (item : Numbered)

namespace NumberCall

open Catalog (Gives Spares)

variable {c : Catalog} {call : NumberCall} {x : Entity}

/-- The catalog after a call. -/
def run (c : Catalog) : NumberCall → Catalog
  | .entity x n => (c.addEntity x n).2
  | .property p n => (c.addProperty p n).2
  | .concept x query => c.addConcept x query
  | .number item => (c.number item).2

/-- The catalog after several calls, of which the first one finds it empty. -/
def after (start : Int) (calls : List NumberCall) : Catalog := calls.foldl run { next := start }

/-- The entity that is given a number of the caller's choice, with that number. -/
def chosen : NumberCall → Option (Entity × Int)
  | .entity x (some n) => some (x, n)
  | _ => none

/-- The entity that is asked for its number. -/
def wanted : NumberCall → Option Entity
  | .entity x none | .concept x _ | .number (.entity x) => some x
  | _ => none

/-- The entity that is given the next number, because it has none. -/
def drawn (c : Catalog) (call : NumberCall) : Option Entity :=
  call.wanted.filter fun x => c.numbers.get? (.entity x.hash) = none

/-- What follows on a look for the number of an entity, in a catalog that may know one query more. -/
theorem exists_run_of_wanted (c : Catalog) (h : call.wanted = some x) : ∃ concepts,
    call.run c = (({ c with concepts } : Catalog).addEntity x).2 ∧ call.chosen = none := by
  cases call with
  | entity y number =>
      cases number with
      | some n => cases h
      | none =>
          cases h
          exact ⟨c.concepts, rfl, rfl⟩
  | property p number => cases h
  | concept y query =>
      cases h
      exact ⟨_, rfl, rfl⟩
  | number item =>
      cases item with
      | entity y =>
          cases h
          exact ⟨c.concepts, congrArg Prod.snd (c.number_eq_addEntity x), rfl⟩
      | property p => cases h

/-- What a call does to entities: one is given the number that the caller has chosen, or one that has none
is given the next number, or no entity is given a number. -/
theorem run_cases (c : Catalog) (call : NumberCall) :
    (∃ x n, call.chosen = some (x, n) ∧ call.drawn c = none ∧ Gives c (call.run c) x n ∧
      (call.run c).next = c.next) ∨
    (∃ x, call.chosen = none ∧ call.drawn c = some x ∧ Gives c (call.run c) x c.next ∧
      (call.run c).next = c.next + 1) ∨
    (call.chosen = none ∧ call.drawn c = none ∧ Spares c (call.run c) ∧
      c.next ≤ (call.run c).next) := by
  cases hwanted : call.wanted with
  | some x =>
      obtain ⟨concepts, hrun, hchosen⟩ := exists_run_of_wanted c hwanted
      unfold drawn
      rw [hrun, hwanted]
      cases hknown : c.numbers.get? (.entity x.hash) with
      | none =>
          rw [Catalog.addEntity_of_new (c := { c with concepts }) hknown]
          have hgives := Catalog.gives_addEntity { c with concepts, next := c.next + 1 } x c.next
          exact .inr (.inl ⟨x, hchosen, by simp [hknown], ⟨hgives.number, hgives.entity⟩, rfl⟩)
      | some n =>
          rw [Catalog.addEntity_of_known (c := { c with concepts }) hknown]
          exact .inr (.inr ⟨hchosen, by simp [hknown], ⟨fun _ => rfl, fun _ => rfl⟩, Int.le_refl _⟩)
  | none =>
      have hdrawn : call.drawn c = none := by rw [drawn, hwanted, Option.filter_none]
      cases call with
      | entity x number =>
          cases number with
          | some n => exact .inl ⟨x, n, rfl, hdrawn, c.gives_addEntity x n, rfl⟩
          | none => cases hwanted
      | property p number => exact .inr (.inr ⟨rfl, hdrawn, c.spares_addProperty p number⟩)
      | concept x query => cases hwanted
      | number item =>
          cases item with
          | entity x => cases hwanted
          | property p => exact .inr (.inr ⟨rfl, hdrawn, c.spares_number_property p⟩)

end NumberCall

namespace Catalog

variable {c c' : Catalog} {x : Entity} {n : Int}

/-- Entities with different hashes have different numbers, and under the number of an entity one with its
hash is found. -/
structure IsFaithful (c : Catalog) : Prop where
  apart : ∀ x y : Entity, ∀ n, c.numbers.get? (.entity x.hash) = some n →
    c.numbers.get? (.entity y.hash) = some n → x.hash = y.hash
  found : ∀ x : Entity, c.numbers.get? (.entity x.hash) ≠ none →
    ∃ y, c.entity? (c.number (.entity x)).1 = some y ∧ y.hash = x.hash

/-- A number is that of another entity. -/
def IsTaken (c : Catalog) (x : Entity) (n : Int) : Prop :=
  ∃ y : Entity, y.hash ≠ x.hash ∧ c.numbers.get? (.entity y.hash) = some n

theorem isFaithful_iff : c.IsFaithful ↔ ∀ (x : Entity) n, c.numbers.get? (.entity x.hash) = some n →
    ∃ y, c.entity? n = some y ∧ y.hash = x.hash := by
  constructor
  · intro h x n hn
    have hfound := h.found x (by rw [hn]; exact Option.some_ne_none n)
    rwa [number_of_known c (.entity x) hn] at hfound
  · intro h
    refine ⟨fun x y n hx hy => ?_, fun x hx => ?_⟩
    · obtain ⟨a, ha, hax⟩ := h x n hx
      obtain ⟨b, hb, hby⟩ := h y n hy
      cases ha.symm.trans hb
      exact hax.symm.trans hby
    · obtain ⟨n, hn⟩ := Option.ne_none_iff_exists'.mp hx
      rw [number_of_known c (.entity x) hn]
      exact h x n hn

theorem isFaithful_empty (start : Int) : ({ next := start } : Catalog).IsFaithful :=
  isFaithful_iff.mpr fun _ _ => nofun

/-- A number that is given keeps a catalog faithful unless it is taken. -/
theorem Gives.isFaithful_iff (h : c.IsFaithful) (hgives : Gives c c' x n) :
    c'.IsFaithful ↔ ¬ c.IsTaken x n := by
  constructor
  · rintro h' ⟨y, hne, hy⟩
    have hx : c'.numbers.get? (.entity x.hash) = some n := by rw [hgives.number, if_pos rfl]
    have hstill : c'.numbers.get? (.entity y.hash) = some n := by
      rw [hgives.number, if_neg hne.symm, hy]
    exact hne (h'.apart y x n hstill hx)
  · intro hfree
    refine Catalog.isFaithful_iff.mpr fun y m hm => ?_
    rw [hgives.number] at hm
    rw [hgives.entity]
    split at hm
    · rename_i hsame
      cases hm
      exact ⟨x, if_pos rfl, hsame⟩
    · rename_i hother
      have hne : n ≠ m := by
        rintro rfl
        exact hfree ⟨y, Ne.symm hother, hm⟩
      rw [if_neg hne]
      exact Catalog.isFaithful_iff.mp h y m hm

theorem Spares.isFaithful (h : c.IsFaithful) (hspares : Spares c c') : c'.IsFaithful := by
  refine Catalog.isFaithful_iff.mpr fun y m hm => ?_
  rw [hspares.number] at hm
  rw [hspares.entity]
  exact Catalog.isFaithful_iff.mp h y m hm

/-- The numbers of entities are below the number that is given next. -/
def IsBelow (c : Catalog) : Prop := ∀ hash n, c.numbers.get? (.entity hash) = some n → n < c.next

theorem Gives.isBelow (h : c.IsBelow) (hgives : Gives c c' x n) (hnext : c.next ≤ c'.next)
    (hn : n < c'.next) : c'.IsBelow := by
  intro hash m hm
  rw [hgives.number] at hm
  split at hm
  · cases hm
    exact hn
  · exact Int.lt_of_lt_of_le (h hash m hm) hnext

theorem IsBelow.not_isTaken (h : c.IsBelow) (x : Entity) : ¬ c.IsTaken x c.next := by
  rintro ⟨y, -, hy⟩
  exact Int.lt_irrefl _ (h y.hash _ hy)

end Catalog

namespace NumberCall

open Catalog

variable {c : Catalog} {call : NumberCall}

/-- A call keeps a catalog faithful exactly if the number that it gives is not taken: neither by choice
nor by the count. -/
theorem isFaithful_run_iff (h : c.IsFaithful) : (call.run c).IsFaithful ↔
    (∀ x n, call.chosen = some (x, n) → ¬ c.IsTaken x n) ∧
      ∀ x, call.drawn c = some x → ¬ c.IsTaken x c.next := by
  rcases call.run_cases c with ⟨x, n, hchosen, hdrawn, hgives, -⟩ | ⟨x, hchosen, hdrawn, hgives, -⟩ |
    ⟨hchosen, hdrawn, hspares, -⟩
  · rw [hgives.isFaithful_iff h, hchosen, hdrawn]
    simp
  · rw [hgives.isFaithful_iff h, hchosen, hdrawn]
    simp
  · rw [hchosen, hdrawn]
    exact iff_of_true (hspares.isFaithful h) ⟨nofun, nofun⟩

/-- Where the caller stays below where the count begins, every number is below the next one. -/
theorem isBelow_run {start : Int} (h : c.IsBelow) (hstart : start ≤ c.next)
    (hchoice : ∀ x n, call.chosen = some (x, n) → n < start) :
    (call.run c).IsBelow ∧ start ≤ (call.run c).next := by
  rcases call.run_cases c with ⟨x, n, hchosen, -, hgives, hnext⟩ | ⟨x, -, -, hgives, hnext⟩ |
    ⟨-, -, hspares, hnext⟩
  · have hn := hchoice x n hchosen
    exact ⟨hgives.isBelow h (by omega) (by omega), by omega⟩
  · exact ⟨hgives.isBelow h (by omega) (by omega), by omega⟩
  · refine ⟨fun hash n hn => ?_, by omega⟩
    rw [hspares.number] at hn
    exact Int.lt_of_lt_of_le (h hash n hn) hnext

theorem after_concat (start : Int) (calls : List NumberCall) (call : NumberCall) :
    after start (calls ++ [call]) = call.run (after start calls) := by
  rw [after, after, List.foldl_append, List.foldl_cons, List.foldl_nil]

theorem isBelow_after {start : Int} {calls : List NumberCall}
    (h : ∀ call ∈ calls, ∀ x n, call.chosen = some (x, n) → n < start) :
    (after start calls).IsBelow ∧ start ≤ (after start calls).next := by
  induction calls using List.reverseRecOn with
  | nil => exact ⟨fun _ _ => nofun, Int.le_refl _⟩
  | append_singleton calls call ih =>
      rw [List.forall_mem_append, List.forall_mem_singleton] at h
      obtain ⟨hbelow, hstart⟩ := ih h.1
      rw [after_concat]
      exact isBelow_run hbelow hstart h.2

/-- Numbers tell entities apart and lead back to them, throughout a sequence of calls, exactly if no
number that is taken is given again: neither by the caller nor by the count, which does not know what
numbers the caller has chosen. The count gives none if the caller stays below where it begins. -/
theorem isFaithful_after_iff (start : Int) (calls : List NumberCall) :
    ((∀ done, done <+: calls → (after start done).IsFaithful) ↔
      ∀ done call, done ++ [call] <+: calls →
        (∀ x n, call.chosen = some (x, n) → ¬ (after start done).IsTaken x n) ∧
          ∀ x, call.drawn (after start done) = some x →
            ¬ (after start done).IsTaken x (after start done).next) ∧
    ((∀ call ∈ calls, ∀ x n, call.chosen = some (x, n) → n < start) →
      ∀ done, done <+: calls → ∀ x, ¬ (after start done).IsTaken x (after start done).next) := by
  refine ⟨⟨fun h done call hdone => ?_, fun h done hdone => ?_⟩, fun h done hdone x => ?_⟩
  · rw [← isFaithful_run_iff (h done ((List.prefix_append _ _).trans hdone)), ← after_concat]
    exact h _ hdone
  · induction done using List.reverseRecOn with
    | nil => exact isFaithful_empty start
    | append_singleton done call ih =>
        rw [after_concat]
        exact (isFaithful_run_iff (ih ((List.prefix_append _ _).trans hdone))).mpr (h done call hdone)
  · exact (isBelow_after fun call hcall => h call (hdone.subset hcall)).1.not_isTaken x

/-- A page is given the number 1 by choice, and a concept is given it by the count after that. -/
example :
    let page : Entity := { title := "Berlin" }
    let concept : Entity := { title := "Cities", space := Namespace.concept }
    let c := after 1 [.entity page (some 1), .concept concept "stored"]
    c.number (.entity page) = (1, c) ∧ c.entity? 1 = some concept := by decide

end NumberCall

end FactIndex
