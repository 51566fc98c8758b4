import FactIndex.Proofs.Compile.ConceptGraph
import FactIndex.Proofs.Search.Matching
import Mathlib.Data.List.ReduceOption

/-!
# The sense of a description

Which documents a description means can be said without regard to how it is compiled: compounds
combine what their members mean, a property leads to the documents with the number of one that is
meant, and a concept means what its stored description does. What is said of single conditions is left
to a lexicon.

References among concepts that do not lead into a cycle have a bottom, so that every concept has a sense.

## Main definitions

* `Sense`: which documents are meant, unless there is no constraint.
* `Lexicon`: what single conditions mean, and how documents are linked.
* `Lexicon.meaning`, `Lexicon.meaningOf`: what a description means, and what it means of the values of a
  property.
* `Lexicon.Interprets`: each concept means what its stored description does.
* `Lexicon.exists_interprets`: concepts without cycles have a sense.
-/

namespace FactIndex

open Relation

/-- Which documents are meant. There may be no constraint. -/
abbrev Sense := Option (Indexed → Bool)

namespace Sense

/-- What is meant by all of several constraints. -/
def all (senses : List Sense) : Sense :=
  if senses.reduceOption.isEmpty then none
  else some fun doc => senses.reduceOption.all fun meant => meant doc

/-- What is meant by one of several constraints. -/
def any (senses : List Sense) : Sense :=
  if senses.reduceOption.isEmpty then none
  else some fun doc => senses.reduceOption.any fun meant => meant doc

end Sense

/-- What single conditions mean, and how documents are linked. -/
structure Lexicon where
  /-- The documents, each with its number. -/
  docs : List (Int × Indexed)
  /-- Whether a document has a number in a field. -/
  links : Indexed → String → Int → Bool
  /-- The field with the numbers of the values of a property. -/
  field : Property → String
  /-- What a node means that stands on its own. -/
  standing : Description → Sense
  /-- What a condition on the values of a property means, which counts down to a depth of its
  hierarchy. -/
  condition : Property → Option Int → Description → Sense
  /-- The field that a disjunction asks for because a node is one of its members. -/
  noted : Description → Option String

namespace Lexicon

variable (L : Lexicon)

/-- The document has in a field the number of one that is meant. -/
def points (field : String) (sense : Sense) : Sense :=
  sense.map fun meant doc => L.docs.any fun x => meant x.2 && L.links doc field x.1

/-- The field with the numbers of values that several conditions describe. -/
def objectField (p : Property) : String := if p.isPage then L.field p else "_id"

mutual

/-- What a description means, given what concepts do. -/
def meaning (f : String → Sense) : Description → Sense
  | .conjunction ds => Sense.all (meanings f ds)
  | .disjunction ds => (Sense.any (meanings f ds)).map fun meant doc =>
    meant doc && (ds.filterMap L.noted).all fun field => !(doc field).isEmpty
  | .category categories depth negated => L.standing (.category categories depth negated)
  | .concept c => f c.hash
  | .space n => L.standing (.space n)
  | .someProperty p inner depth => meaningOf f p depth inner
  | .value item comparator property => L.standing (.value item comparator property)
  | .thing negated => if negated then some fun _ => false else none

/-- What each of several descriptions means. -/
def meanings (f : String → Sense) : List Description → List Sense
  | [] => []
  | d :: ds => meaning f d :: meanings f ds

/-- What is meant by a property whose values are described. -/
def meaningOf (f : String → Sense) (p : Property) (depth : Option Int) : Description → Sense
  | .someProperty q inner qdepth => L.points (L.field p) (meaningOf f q qdepth inner)
  | .value item comparator property => L.condition p depth (.value item comparator property)
  | .thing negated => L.condition p depth (.thing negated)
  | .disjunction ds => Sense.any (meaningsOf f p depth ds)
  | .conjunction ds => L.points (L.objectField p) (Sense.all (meanings f ds))
  | .category categories categoryDepth negated =>
    L.points (L.objectField p) (L.standing (.category categories categoryDepth negated))
  | .concept c => L.points (L.objectField p) (f c.hash)
  | .space n => L.points (L.objectField p) (L.standing (.space n))

/-- What is meant by a property with each of several descriptions of its values. -/
def meaningsOf (f : String → Sense) (p : Property) (depth : Option Int) :
    List Description → List Sense
  | [] => []
  | d :: ds => meaningOf f p depth d :: meaningsOf f p depth ds

end

/-! ## Concepts -/

/-- What a stored description means, given what concepts do. What cannot be read means nothing. -/
def storedMeaning (t : Table String String) (f : String → Sense) (hash : String) : Sense :=
  match t.get? hash with
  | none | some "" => none
  | some stored =>
    match Description.parse stored with
    | .error _ => some fun _ => false
    | .ok inner => L.meaning f inner

/-- Each concept means what its stored description does. -/
def Interprets (t : Table String String) (f : String → Sense) : Prop :=
  ∀ hash, f hash = L.storedMeaning t f hash

variable {L} {f g : String → Sense}

mutual

/-- What a description means depends on no other concepts than those in it. -/
theorem meaning_congr : (d : Description) → (∀ e ∈ d.concepts, f e.hash = g e.hash) →
    L.meaning f d = L.meaning g d
  | .conjunction ds, h => by rw [meaning, meaning, meanings_congr ds h]
  | .disjunction ds, h => by rw [meaning, meaning, meanings_congr ds h]
  | .concept c, h => by
      rw [meaning, meaning]
      exact h c (by simp [Description.concepts])
  | .someProperty p inner depth, h => by rw [meaning, meaning, meaningOf_congr p depth inner h]
  | .category _ _ _, _ | .space _, _ | .value _ _ _, _ | .thing _, _ => by rw [meaning, meaning]

theorem meanings_congr : (ds : List Description) →
    (∀ e ∈ Description.allConcepts ds, f e.hash = g e.hash) → L.meanings f ds = L.meanings g ds
  | [], _ => by rw [meanings, meanings]
  | d :: ds, h => by
      rw [meanings, meanings,
        meaning_congr d fun e he => h e (by simp [Description.allConcepts, he]),
        meanings_congr ds fun e he => h e (by simp [Description.allConcepts, he])]

theorem meaningOf_congr (p : Property) (depth : Option Int) : (d : Description) →
    (∀ e ∈ d.concepts, f e.hash = g e.hash) → L.meaningOf f p depth d = L.meaningOf g p depth d
  | .someProperty q inner qdepth, h => by rw [meaningOf, meaningOf, meaningOf_congr q qdepth inner h]
  | .disjunction ds, h => by rw [meaningOf, meaningOf, meaningsOf_congr p depth ds h]
  | .conjunction ds, h => by rw [meaningOf, meaningOf, meanings_congr ds h]
  | .concept c, h => by
      rw [meaningOf, meaningOf, h c (by simp [Description.concepts])]
  | .category _ _ _, _ | .space _, _ | .value _ _ _, _ | .thing _, _ => by rw [meaningOf, meaningOf]

theorem meaningsOf_congr (p : Property) (depth : Option Int) : (ds : List Description) →
    (∀ e ∈ Description.allConcepts ds, f e.hash = g e.hash) →
    L.meaningsOf f p depth ds = L.meaningsOf g p depth ds
  | [], _ => by rw [meaningsOf, meaningsOf]
  | d :: ds, h => by
      rw [meaningsOf, meaningsOf,
        meaningOf_congr p depth d fun e he => h e (by simp [Description.allConcepts, he]),
        meaningsOf_congr p depth ds fun e he => h e (by simp [Description.allConcepts, he])]

end

/-- A stored description depends on the concepts that it refers to. -/
theorem storedMeaning_congr {t : Table String String} {hash : String}
    (h : ∀ other, Concepts.RefersTo t hash other → f other = g other) :
    L.storedMeaning t f hash = L.storedMeaning t g hash := by
  unfold storedMeaning
  split
  · rfl
  · rfl
  · rename_i stored hstored hget
    split
    · rfl
    · rename_i inner hparse
      refine meaning_congr inner fun e he => h e.hash ⟨inner, ?_, e, he, rfl⟩
      unfold Concepts.definition?
      rw [hget]
      simp [hparse, Except.toOption]

variable (L) in
/-- What concepts mean if references are followed so and so far. -/
def meaningUpTo (t : Table String String) : Nat → String → Sense
  | 0 => fun _ => none
  | n + 1 => L.storedMeaning t (meaningUpTo t n)

/-- By induction on how far references are followed: with each one there is a concept less left, so they
end before they are cut off. -/
theorem meaningUpTo_succ {t : Table String String}
    (hacyclic : ∀ hash, ¬ TransGen (Concepts.RefersTo t) hash hash) (n : Nat) {stack : List String}
    {hash : String} (hstack : ∀ above ∈ stack, TransGen (Concepts.RefersTo t) above hash)
    (hleft : (Concepts.unexpanded t stack).card < n) :
    L.meaningUpTo t n hash = L.meaningUpTo t (n + 1) hash := by
  induction n generalizing stack hash with
  | zero => exact absurd hleft (Nat.not_lt_zero _)
  | succ n ih =>
      refine storedMeaning_congr fun other hrefers => ?_
      have hnew : hash ∉ stack := fun hmem => hacyclic hash (hstack hash hmem)
      have hless := Concepts.card_unexpanded_lt hrefers.choose_spec.1 hnew
      refine @ih (stack ++ [hash]) _ (fun above habove => ?_) (by omega)
      rcases List.mem_append.mp habove with habove | habove
      · exact (hstack above habove).tail hrefers
      · rw [List.mem_singleton.mp habove]
        exact .single hrefers

/-- Concepts that do not lead into a cycle have a sense. -/
theorem exists_interprets {t : Table String String}
    (hacyclic : ∀ hash, ¬ TransGen (Concepts.RefersTo t) hash hash) : ∃ f, L.Interprets t f := by
  refine ⟨L.meaningUpTo t ((Concepts.unexpanded t []).card + 1), fun hash => ?_⟩
  have hnone : ∀ above ∈ ([] : List String), TransGen (Concepts.RefersTo t) above hash := nofun
  exact meaningUpTo_succ hacyclic _ hnone (Nat.lt_succ_self _)

end Lexicon

end FactIndex
