import FactIndex.Compile.Node
import Mathlib.Data.Finset.Card
import Mathlib.Data.Finset.Dedup
import Mathlib.Logic.Relation

/-!
# Concepts that refer to concepts

A concept refers to those that occur anywhere in its stored description. Expanding a concept follows
these references. A concept is flagged if it is being expanded already, or if its description refers to
it without a property in between. Among the concepts that are followed one is flagged exactly if the
references lead into a cycle.

## Main definitions

* `Description.concepts`: the concepts in a description.
* `Concepts.RefersTo`, `Concepts.LeadsToCycle`: the graph of references and its cycles.
* `Concepts.Flagged`: the search that the expansion of a concept amounts to.
* `Concepts.flagged_iff_leadsToCycle`: the search finds exactly the cycles.
-/

namespace FactIndex

open Relation

namespace Description

mutual

/-- The concepts that occur anywhere in a description. -/
def concepts : Description → List Entity
  | .conjunction ds => allConcepts ds
  | .disjunction ds => allConcepts ds
  | .concept c => [c]
  | .someProperty _ inner _ => inner.concepts
  | .category _ _ _ | .space _ | .value _ _ _ | .thing _ => []

/-- The concepts in several descriptions. -/
def allConcepts : List Description → List Entity
  | [] => []
  | d :: ds => d.concepts ++ allConcepts ds

end

mutual

/-- A concept that a description refers to without a property in between occurs in it. -/
theorem mem_concepts_of_refersTo {hash : String} : (d : Description) → d.refersTo hash = true →
    ∃ e ∈ d.concepts, e.hash = hash
  | .concept c, h => ⟨c, by simp [concepts], by simpa [refersTo] using h⟩
  | .conjunction ds, h => by
      rw [refersTo] at h
      rw [concepts]
      exact mem_allConcepts_of_anyRefersTo ds h
  | .disjunction ds, h => by
      rw [refersTo] at h
      rw [concepts]
      exact mem_allConcepts_of_anyRefersTo ds h
  | .category _ _ _, h | .space _, h | .someProperty _ _ _, h | .value _ _ _, h | .thing _, h => by
      simp [refersTo] at h

theorem mem_allConcepts_of_anyRefersTo {hash : String} : (ds : List Description) →
    anyRefersTo hash ds = true → ∃ e ∈ allConcepts ds, e.hash = hash
  | [], h => by simp [anyRefersTo] at h
  | d :: ds, h => by
      rw [anyRefersTo, Bool.or_eq_true] at h
      rcases h with h | h
      · rcases mem_concepts_of_refersTo d h with ⟨e, he, heq⟩
        exact ⟨e, by simp [allConcepts, he], heq⟩
      · rcases mem_allConcepts_of_anyRefersTo ds h with ⟨e, he, heq⟩
        exact ⟨e, by simp [allConcepts, he], heq⟩

end

end Description

namespace Concepts

variable {t : Table String String}

/-! ## The graph -/

/-- The stored description of a concept, if it has one that can be read. -/
def definition? (t : Table String String) (hash : String) : Option Description :=
  match t.get? hash with
  | none | some "" => none
  | some stored => (Description.parse stored).toOption

/-- A concept refers to those that occur in its stored description. -/
def RefersTo (t : Table String String) (hash other : String) : Prop :=
  ∃ inner, definition? t hash = some inner ∧ ∃ e ∈ inner.concepts, e.hash = other

/-- The references of a concept lead into a cycle. -/
def LeadsToCycle (t : Table String String) (hash : String) : Prop :=
  ∃ other, ReflTransGen (RefersTo t) hash other ∧ TransGen (RefersTo t) other other

theorem LeadsToCycle.of_refersTo {hash other : String} (h : RefersTo t hash other)
    (hother : LeadsToCycle t other) : LeadsToCycle t hash := by
  rcases hother with ⟨last, hpath, hcycle⟩
  exact ⟨last, ReflTransGen.head h hpath, hcycle⟩

/-- Who leads into a cycle refers to somebody who does. -/
theorem LeadsToCycle.exists_refersTo {hash : String} (h : LeadsToCycle t hash) :
    ∃ other, RefersTo t hash other ∧ LeadsToCycle t other := by
  rcases h with ⟨last, hpath, hcycle⟩
  rcases ReflTransGen.cases_head hpath with rfl | ⟨other, hfirst, hrest⟩
  · rcases TransGen.head'_iff.mp hcycle with ⟨other, hfirst, hrest⟩
    exact ⟨other, hfirst, hash, hrest, hcycle⟩
  · exact ⟨other, hfirst, last, hrest, hcycle⟩

theorem has_of_definition {hash : String} {inner : Description}
    (h : definition? t hash = some inner) : ∃ stored, t.get? hash = some stored := by
  unfold definition? at h
  split at h
  · cases h
  · cases h
  · rename_i stored _ hget
    exact ⟨stored, hget⟩

/-! ## The search -/

/-- Expanding a concept, while others are being expanded, comes upon one that is flagged. -/
inductive Flagged (t : Table String String) : List String → String → Prop
  | here {stack : List String} {hash : String} {inner : Description}
      (hdef : definition? t hash = some inner)
      (hseen : hash ∈ stack ∨ inner.refersTo hash = true) : Flagged t stack hash
  | further {stack : List String} {hash : String} {inner : Description} {e : Entity}
      (hdef : definition? t hash = some inner)
      (hnew : hash ∉ stack) (hself : inner.refersTo hash = false)
      (hmem : e ∈ inner.concepts) (hflagged : Flagged t (stack ++ [hash]) e.hash) :
      Flagged t stack hash

/-- What is flagged lies on a cycle, or leads back to a concept that is being expanded. -/
theorem Flagged.cycle_or_back {stack : List String} {hash : String} (h : Flagged t stack hash) :
    LeadsToCycle t hash ∨ ∃ back ∈ stack, ReflTransGen (RefersTo t) hash back := by
  induction h with
  | @here stack hash inner hdef hseen =>
      rcases hseen with hmem | hself
      · exact .inr ⟨hash, hmem, .refl⟩
      · have hloop : RefersTo t hash hash :=
          ⟨inner, hdef, Description.mem_concepts_of_refersTo inner hself⟩
        exact .inl ⟨hash, .refl, .single hloop⟩
  | @further stack hash inner e hdef hnew hself hmem hflagged ih =>
      have hedge : RefersTo t hash e.hash := ⟨inner, hdef, e, hmem, rfl⟩
      rcases ih with hcycle | ⟨back, hback, hpath⟩
      · exact .inl (hcycle.of_refersTo hedge)
      · rcases List.mem_append.mp hback with hold | hlast
        · exact .inr ⟨back, hold, ReflTransGen.head hedge hpath⟩
        · obtain rfl : back = hash := by simpa using hlast
          exact .inl ⟨back, .refl, TransGen.head' hedge hpath⟩

/-- The concepts with a stored query that are not being expanded. -/
def unexpanded (t : Table String String) (stack : List String) : Finset String :=
  t.keys.toFinset \ stack.toFinset

/-- With each expansion there is one concept less left. -/
theorem card_unexpanded_lt {stack : List String} {hash : String} {inner : Description}
    (hdef : definition? t hash = some inner) (hnew : hash ∉ stack) :
    (unexpanded t (stack ++ [hash])).card < (unexpanded t stack).card := by
  rcases has_of_definition hdef with ⟨stored, hget⟩
  have hkey := Table.mem_keys_of_get? hget
  apply Finset.card_lt_card
  refine ⟨?_, fun hsub => ?_⟩
  · intro key hk
    simp only [unexpanded, Finset.mem_sdiff, List.mem_toFinset, List.mem_append, not_or] at hk ⊢
    exact ⟨hk.1, hk.2.1⟩
  · have hmem : hash ∈ unexpanded t stack := by simp [unexpanded, hkey, hnew]
    have := hsub hmem
    simp [unexpanded] at this

/-- Completeness, by induction on the number of concepts that are left. -/
theorem flagged_of_leadsToCycle {stack : List String} {hash : String} (h : LeadsToCycle t hash) :
    Flagged t stack hash := by
  induction hleft : (unexpanded t stack).card using Nat.strong_induction_on generalizing stack hash with
  | _ left ih =>
      rcases h.exists_refersTo with ⟨_, ⟨inner, hdef, e, hmem, rfl⟩, hnext⟩
      by_cases hstack : hash ∈ stack
      · exact .here hdef (.inl hstack)
      cases hself : inner.refersTo hash with
      | true => exact .here hdef (.inr hself)
      | false =>
          have hless := card_unexpanded_lt hdef hstack
          exact .further hdef hstack hself hmem (ih _ (hleft ▸ hless) hnext rfl)

/-- From the beginning the search flags a concept exactly if its references lead into a cycle. -/
theorem flagged_iff_leadsToCycle (hash : String) : Flagged t [] hash ↔ LeadsToCycle t hash := by
  constructor
  · intro h
    rcases h.cycle_or_back with hcycle | ⟨back, hback, _⟩
    · exact hcycle
    · simp at hback
  · exact flagged_of_leadsToCycle

/-- One step of the search. -/
theorem flagged_iff {stack : List String} {hash : String} {inner : Description}
    (hdef : definition? t hash = some inner) :
    Flagged t stack hash ↔ (hash ∈ stack ∨ inner.refersTo hash = true) ∨
      ∃ e ∈ inner.concepts, Flagged t (stack ++ [hash]) e.hash := by
  constructor
  · rintro (⟨hdef', hseen⟩ | ⟨hdef', _, _, hmem, hflagged⟩)
    · cases hdef.symm.trans hdef'
      exact .inl hseen
    · cases hdef.symm.trans hdef'
      exact .inr ⟨_, hmem, hflagged⟩
  · rintro (hseen | ⟨e, hmem, hflagged⟩)
    · exact .here hdef hseen
    · by_cases hstack : hash ∈ stack
      · exact .here hdef (.inl hstack)
      cases hself : inner.refersTo hash with
      | true => exact .here hdef (.inr hself)
      | false => exact .further hdef hstack hself hmem hflagged

theorem not_flagged {stack : List String} {hash : String} (h : definition? t hash = none) :
    ¬ Flagged t stack hash := by
  rintro (⟨hdef, _⟩ | ⟨hdef, _⟩) <;> rw [h] at hdef <;> cases hdef

end Concepts

end FactIndex
