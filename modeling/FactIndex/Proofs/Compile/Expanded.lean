import FactIndex.Proofs.Compile.Cycle
import FactIndex.Proofs.Compile.Disjunction
import FactIndex.Proofs.Compile.Nodes

/-!
# Expanded concepts

A concept is expanded to what its stored description means, whether its members are looked up or not.
With each expansion there is a concept less left, so that expansions within each other end before they
are cut off. In the end a compiled description selects the documents that it means.

## Main definitions

* `Hindsight.Stored`: what is asked of stored descriptions.
* `Hindsight.comes_conceptClause`: the lookup of the members of a concept.
* `Hindsight.comes_concept`, `Hindsight.expands_expandConcept`: the expansion of a concept.
* `Hindsight.meets_compile`: what the query of a description selects.
-/

namespace FactIndex

open FactIndex.Effect FactIndex.Digest FactIndex.Compiling Relation

variable {σ α : Type}

/-- Whether a document is meant. Without a constraint every document is. -/
def Sense.describes (sense : Sense) (doc : Indexed) : Bool := sense.elim true fun meant => meant doc

namespace Hindsight

open Deployment

variable {d : Deployment σ} {H : Hindsight d} {made : List Settled} {stack : List String}
  {s : World σ × Progress} {scope : List Nat → Prop} {fails : Prop} {description inner : Description}

/-! ## Expansions of concepts -/

/-- While a concept is expanded, its hash is known, and afterwards no more. -/
theorem comes_expandingOf {hash : String} {x : Compiling σ α} {good : α → List Settled → Prop}
    (h : H.Ready stack scope made s)
    (hx : ∀ t, H.Ready (stack ++ [hash]) scope made t → x.Meets t
      (H.Comes made t scope fails fun a made' _ => good a made')) :
    (expandingOf hash x).Meets s (H.Comes made s scope fails fun a made' _ => good a made') := by
  let start : World σ × Progress := (s.1, { s.2 with expanding := s.2.expanding ++ [hash] })
  obtain ⟨hkept, hfine⟩ :=
    h.kept.of_catalog (t := start) (c := s.1.catalog) rfl (Catalog.Grows.refl _) rfl
  have hcomes := hx start ⟨hkept, congrArg (· ++ [hash]) h.expanding, h.fresh⟩
  unfold Meets at hcomes ⊢
  rw [outcome_expandingOf]
  refine ⟨hcomes.fails, fun a ha => ?_⟩
  obtain ⟨made', hsub, hkept', hwithin, hgood⟩ := hcomes.answers a ha
  let after := (x.outcome start).2
  obtain ⟨hkept'', hfine'⟩ := hkept'.of_catalog
    (t := (after.1, { after.2 with expanding := after.2.expanding.dropLast })) (c := after.1.catalog) rfl
    (Catalog.Grows.refl _) rfl
  refine ⟨made', hsub, hkept'', ⟨?_, hwithin.negated⟩, fun ht => ?_⟩
  · exact (congrArg List.dropLast hwithin.expanding).trans List.dropLast_concat
  · obtain ⟨hstart, ha'⟩ := hgood (hfine' ht)
    exact ⟨hfine hstart, ha'⟩

/-- Documents are found by their own numbers. -/
theorem pointing_id (meant : Indexed → Bool) {x : Int × Indexed} (hx : x ∈ H.docs) :
    H.pointing "_id" meant x.2 = meant x.2 := by
  unfold pointing
  rw [Bool.eq_iff_iff, List.any_eq_true]
  constructor
  · rintro ⟨y, hy, hboth⟩
    rw [Bool.and_eq_true] at hboth
    have hsame := (H.identifies.hasId x hx y.1).mp hboth.2
    rw [← H.identifies.unique y hy x hx hsame]
    exact hboth.1
  · intro hmeant
    refine ⟨x, hx, ?_⟩
    rw [hmeant, (H.identifies.hasId x hx x.1).mpr rfl]
    rfl

/-- The lookup of the members of a concept is named by the concept. -/
theorem isNamed_conceptLookup {hash : String} {n : Int} (hlookup : d.settings.query.conceptLookup = true)
    (hdefinition : Concepts.definition? H.world.catalog.concepts hash = some inner)
    (hnumber : H.world.catalog.numbers.get? (.entity hash) = some n) {meant : Indexed → Bool}
    (hmeant : H.meant hash = some meant) (clause : Json) (records : List Members) (isStored : Bool) :
    Settled.IsNamed H.world.catalog (d.digestedValues H.world.catalog records) H.members
      ⟨d.conceptLookup (.int n) inner.fingerprint clause, H.collected meant, isStored⟩ := by
  obtain ⟨stored, hstored⟩ := Concepts.has_of_definition hdefinition
  have hdigested : d.digestedOfConcept H.world.catalog hash = [.int n, Json.ofTexts [plainHash (.int n),
      toString d.settings.subquery.conceptThreshold, inner.fingerprint]] := by
    unfold digestedOfConcept
    rw [hnumber, hdefinition]
  have hvalues : ∀ v ∈ d.digestedOfConcept H.world.catalog hash,
      v ∈ d.digestedValues H.world.catalog records :=
    fun v hv => mem_digestedValues_of_concept hlookup hv
  rw [hdigested] at hvalues
  refine ⟨hvalues _ (List.mem_cons_of_mem _ (List.mem_singleton_self _)), .inr ⟨hash,
    Table.mem_keys_of_get? hstored, n, hnumber, hvalues _ List.mem_cons_self, rfl, funext fun m => ?_⟩⟩
  refine propext ⟨fun hm => ⟨meant, hmeant, hm⟩, ?_⟩
  rintro ⟨other, hother, hm⟩
  rw [hmeant] at hother
  cases hother
  exact hm

/-- A concept with a stored description has the number that it had when it was looked up. -/
theorem number_of_read {c : Entity} {n : Int}
    (hdefinition : Concepts.definition? H.world.catalog.concepts c.hash = some inner)
    (hread : (act (numberOf (.entity c)) : Compiling σ Int).read? H.world = some n) :
    H.world.catalog.numbers.get? (.entity c.hash) = some n := by
  obtain ⟨stored, hstored⟩ := Concepts.has_of_definition hdefinition
  obtain ⟨m, hm⟩ := H.numbers.known c.hash (Table.mem_keys_of_get? hstored)
  have hnumber : (H.world.catalog.number (.entity c)).1 = n := by
    rw [read?_eq_some] at hread
    exact Except.ok.inj hread
  rw [Catalog.number_of_known _ (.entity c) hm] at hnumber
  rwa [← hnumber]

/-- The members of a concept are looked up, if concepts are. -/
theorem comes_conceptClause {c : Entity} {found : Option Json} (h : H.Kept s made)
    (hdefinition : Concepts.definition? H.world.catalog.concepts c.hash = some inner)
    (htimes : ∀ time ∈ inner.times, ¬ Description.IsLegible time → fails)
    (hfound : H.Fine s → H.Expresses made found (H.meant c.hash)) :
    (d.conceptClause c inner found).Meets s (H.Comes made s (fun _ => False) fails fun clause made' _ =>
      H.Expresses made' clause (H.meant c.hash)) := by
  cases found with
  | none => exact Comes.pure h hfound
  | some clause =>
      unfold conceptClause
      dsimp only
      cases hlookup : d.settings.query.conceptLookup with
      | false => exact Comes.pure h hfound
      | true =>
          have hnumber : Answers (act (numberOf (.entity c)) : Compiling σ Int) fails fun _ => True :=
            (Answers.numberOf _).act
          refine Comes.bind_quiet (comes_read (RepeatedBy.numberOf (.entity c)) hnumber
            (fun _ => .of_eq rfl rfl) h) fun number made' t hsub hkept _ ht => ?_
          have htext : lookUp (d.lookupConcept c (.int number) inner clause) =
              Effect.ofExcept inner.queryText >>= fun text => lookUp (d.resolved
                (d.conceptLookup (.int number) inner.fingerprint clause) "_id" "concept_lookup_query"
                (c.hash ++ " → " ++ text)) := by
            unfold lookUp lookupConcept
            rw [act_bind, act_ofExcept, bind_assoc]
          rw [htext, bind_assoc]
          refine Comes.bind_quiet (comes_queryText hkept htimes) fun text made'' u hsub' hkept' _ hu => ?_
          have hmeans : H.Fine u → H.meant c.hash = some ((H.meant c.hash).getD fun _ => false) ∧
              H.Means made'' clause ((H.meant c.hash).getD fun _ => false) := fun hfine =>
            have hmeans := (hfound (ht (hu hfine).1).1).means
            ⟨hmeans.1, (hmeans.2.mono hsub).mono hsub'⟩
          refine Comes.bind_quiet (comes_resolved hkept' H.isUsableForConcepts rfl rfl rfl
            (fun hfine => (hmeans hfine).2.amountsTo d.settings.subquery.constantScore) "_id" (by decide)
            _ fun hfine record isStored => ?_) fun found made₃ v _ hkept'' _ hfound' =>
              Comes.pure hkept'' fun hv => ?_
          · exact isNamed_conceptLookup hlookup hdefinition
              (number_of_read hdefinition (ht (hu hfine).1).2.1) (hmeans hfine).1 clause _ isStored
          · obtain ⟨hu', hlisted, hpoints⟩ := hfound' hv
            rw [(hmeans hu').1]
            exact .some ⟨hlisted, fun state hstate hin x hx =>
              (hpoints state hstate hin x hx).trans (pointing_id _ hx)⟩

/-- No stored description has an inverse property, and something is the case if one of the times in them
cannot be compared or written. -/
def Stored (H : Hindsight d) (fails : Prop) : Prop :=
  ∀ hash inner, Concepts.definition? H.world.catalog.concepts hash = some inner →
    inner.isDirect = true ∧ ∀ time ∈ inner.times, ¬ Description.IsLegible time → fails

/-- What is asked of a stored description while its concept is expanded. -/
theorem Stored.suits {hash : String} (h : H.Stored fails)
    (hdefinition : Concepts.definition? H.world.catalog.concepts hash = some inner)
    (hstack : ∀ above ∈ stack, TransGen (Concepts.RefersTo H.world.catalog.concepts) above hash) :
    H.Suits (stack ++ [hash]) fails inner := by
  refine ⟨(h hash inner hdefinition).1, (h hash inner hdefinition).2, fun above habove e he => ?_⟩
  have hrefers : Concepts.RefersTo H.world.catalog.concepts hash e.hash :=
    ⟨inner, hdefinition, e, he, rfl⟩
  rcases List.mem_append.mp habove with habove | habove
  · exact (hstack above habove).tail hrefers
  · rw [List.mem_singleton.mp habove]
    exact .single hrefers

/-- The stored description of a concept is compiled while the concept is being expanded. -/
theorem comes_concept {compile : Bool → List Nat → Description → Compiling σ (Option Json)}
    (hstored : H.Stored fails)
    (hcompile : ∀ hash inner, Concepts.definition? H.world.catalog.concepts hash = some inner →
      hash ∉ stack → H.Suits (stack ++ [hash]) fails inner → ∀ isMember path made s,
      H.Ready (stack ++ [hash]) (path <+: ·) made s → (compile isMember path inner).Meets s
        (H.Comes made s (path <+: ·) fails (H.Good path inner (H.lexicon.meaning H.meant inner)))) :
    H.Expands stack fails (d.compileConcept compile) := by
  intro isMember path c made s hstack h
  have hmeant : H.meant c.hash = H.lexicon.storedMeaning H.world.catalog.concepts H.meant c.hash :=
    H.interprets c.hash
  have hcatalog : (act catalog : Compiling σ Catalog).outcome s = (.ok s.1.catalog, s) := rfl
  have hquery : s.1.catalog.query? c = H.world.catalog.concepts.get? c.hash := by
    rw [Catalog.query?, h.kept.concepts]
  unfold compileConcept
  refine Meets.bind_of_ok hcatalog ?_
  rw [hquery]
  unfold Lexicon.storedMeaning at hmeant
  cases hget : H.world.catalog.concepts.get? c.hash with
  | none =>
      rw [hget] at hmeant
      refine Comes.pure h.kept fun _ => ?_
      rw [hmeant]
      exact .none
  | some stored =>
      by_cases hempty : stored = ""
      · subst hempty
        rw [hget] at hmeant
        refine Comes.pure h.kept fun _ => ?_
        rw [hmeant]
        exact .none
      · rw [hget] at hmeant
        simp only at hmeant ⊢
        cases hparse : Description.parse stored with
        | error e =>
            rw [hparse] at hmeant
            refine Comes.bind_quiet (comes_queryText h.kept (by simp [Description.times]))
              fun text made' t _ hkept _ _ => ?_
            refine Comes.bind_quiet (comes_note hkept (fun _ => rfl) (fun _ => rfl) fun _ _ _ => rfl)
              fun _ made'' u _ hkept' _ _ => Comes.pure hkept' fun _ => ?_
            rw [hmeant]
            exact .some means_nothing
        | ok inner =>
            rw [hparse] at hmeant
            have hdefinition : Concepts.definition? H.world.catalog.concepts c.hash = some inner := by
              simp [Concepts.definition?, hget, hparse, Except.toOption]
            have hnew : c.hash ∉ stack := fun hmem => H.isAcyclic c.hash (hstack c.hash hmem)
            have hnot : inner.refersTo c.hash = false := by
              rw [Bool.eq_false_iff]
              intro hrefers
              obtain ⟨e, he, hsame⟩ := Description.mem_concepts_of_refersTo inner hrefers
              exact H.isAcyclic c.hash (.single ⟨inner, hdefinition, e, he, hsame⟩)
            have hcheck : (s.2.expanding.contains c.hash || inner.refersTo c.hash) = false := by
              rw [h.expanding, hnot]
              simpa using hnew
            have hexpanding : (expandingOf c.hash (compile isMember (path ++ [0]) inner)).Meets s
                (H.Comes made s (Beneath path 0) fails fun found made' _ =>
                  H.Expresses made' found (H.meant c.hash)) := comes_expandingOf h fun t ht => by
              refine Comes.mono (hcompile c.hash inner hdefinition hnew
                (hstored.suits hdefinition hstack) isMember (path ++ [0]) made t
                (ht.mono fun _ => Beneath.of_child)) (fun _ => Beneath.of_child)
                fun found made' u _ _ _ _ hgood => ?_
              rw [hmeant]
              exact hgood.1
            refine Meets.bind_of_ok (outcome_progress s) ?_
            simp only [hcheck, Bool.false_eq_true, if_false]
            refine Comes.bind_to_quiet hexpanding fun found made' t _ hkept _ hfound => ?_
            exact comes_conceptClause hkept hdefinition (hstored c.hash inner hdefinition).2
              fun ht => (hfound ht).2

/-- By induction on how many expansions are allowed: with each one there is a concept less left. -/
theorem expands_expandConcept (hstored : H.Stored fails) (n : Nat) {stack : List String}
    (hleft : (Concepts.unexpanded H.world.catalog.concepts stack).card < n) :
    H.Expands stack fails (d.expandConcept n) := by
  induction n generalizing stack with
  | zero => exact absurd hleft (Nat.not_lt_zero _)
  | succ n ih =>
      refine comes_concept hstored
        fun hash inner hdefinition hnew hsuits isMember path made s hready => ?_
      have hless := Concepts.card_unexpanded_lt hdefinition hnew
      exact comes_node (ih (by omega)) isMember path inner hsuits made s hready

/-! ## Queries -/

/-- Nothing has been looked up in the beginning. -/
theorem kept_start {w : World σ} (hdocs : H.engine.docs w.engine = H.docs)
    (hconcepts : w.catalog.concepts = H.world.catalog.concepts) (hempty : ∀ full, w.kept d full = none) :
    H.Kept (w, {}) [] where
  sound := ExactEngine.Sound.of_empty hdocs hempty
  concepts := hconcepts
  named _ := by rintro _ ⟨⟩

/-- The query of a description selects the documents that the description means. There is one unless a
time cannot be compared or written. -/
theorem meets_compile (hstored : H.Stored fails) (hsuits : H.Suits [] fails description)
    (isMember : Bool) {w : World σ} (hdocs : H.engine.docs w.engine = H.docs)
    (hconcepts : w.catalog.concepts = H.world.catalog.concepts) (hempty : ∀ full, w.kept d full = none) :
    (d.compile isMember description).Meets w fun r after => (∀ e, r = .error e → fails) ∧
      ∀ query progress, r = .ok (query, progress) → after.catalog.Grows H.world.catalog →
        d.FitsWith H.world.catalog progress.records → ∀ x ∈ H.docs,
          Clause.selects (H.engine.matching after.engine) x.2 query =
            (H.lexicon.meaning H.meant description).describes x.2 := by
  have hleft : (Concepts.unexpanded H.world.catalog.concepts []).card <
      w.catalog.concepts.length + 1 := by
    have hle := @card_unexpanded_le w.catalog.concepts []
    rw [← hconcepts]
    omega
  have hcomes := comes_node (expands_expandConcept hstored _ hleft) isMember [] description hsuits []
    (w, {}) ⟨kept_start hdocs hconcepts hempty, rfl, fun _ _ => rfl⟩
  unfold Meets at hcomes ⊢
  rw [outcome_compile]
  rcases hr : (d.compileNode (d.expandConcept (w.catalog.concepts.length + 1)) isMember []
    description).outcome (w, {}) with ⟨e | found, after, progress⟩ <;> rw [hr] at hcomes
  · exact ⟨fun _ _ => hcomes.fails e rfl, by rintro _ _ ⟨⟩⟩
  · refine ⟨by rintro _ ⟨⟩, ?_⟩
    rintro query progress' ⟨⟩ hgrows hfits x hx
    obtain ⟨made, -, hkept, -, hgood⟩ := hcomes.answers _ rfl
    obtain ⟨hexpresses, -⟩ := (hgood ⟨hgrows, hfits⟩).2
    generalize H.lexicon.meaning H.meant description = sense at hexpresses ⊢
    cases hexpresses with
    | none => exact Clause.holds_everything _ _
    | some hmeans =>
        exact hmeans.2 after.engine hkept.sound.docs_eq (hkept.sound.inPlace ⟨hgrows, hfits⟩) x hx

end Hindsight

end FactIndex
