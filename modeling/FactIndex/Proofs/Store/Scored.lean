import FactIndex.Proofs.Store.Answer

/-!
# Sorting by score

The score becomes a field to sort by in three ways: by an order by score, by the key that stands for the
score, and by a label that is the name of the score itself. Only the first two make the query keep its
scores. A score that is spelt out and not asked for in another way is sorted by all the same, while the
query is wrapped so that all results have one and the same score.

## Main definitions

* `Sorting.IsScoreKey`, `Sorting.SpellsScore`, `Sorting.IsRandomOrder`: what a sort key can ask for.
* `Sorting.Takes`: what becomes of a sorting that goes on.
* `Deployment.AsksForScore`, `Deployment.SpellsScore`: what the sort keys of a query ask for.
* `Search.SortsByScore`, `Deployment.ScoresAlike`: what a search does with scores.
* `Deployment.keeps_scores_iff`: when scores are kept that are sorted by.
-/

namespace FactIndex

open FactIndex.Effect FactIndex.Text

variable {σ : Type}

namespace Sorting

/-! ## What a key asks for -/

/-- A key that stands for the score, in letters of any size. -/
def IsScoreKey (scoreKey key : String) : Prop := scoreKey ≠ "" ∧ lowercase key = lowercase scoreKey

/-- A key with the name of the score among its labels. -/
def SpellsScore (key : String) : Prop := score ∈ cut '.' key

instance (key : String) : Decidable (SpellsScore key) := inferInstanceAs (Decidable (_ ∈ _))

/-- An order that is random. -/
def IsRandomOrder (order : String) : Prop := occurs "rand" (lowercase order) = true

/-- What becomes of a sorting that goes on: whether it sorts by score, whether scores are dropped and
whether its order is random depends on what was there before, on whether the score was asked for or spelt
out, and on whether a random order was asked for. -/
structure Takes (s t : Sorting) (asked spelt random : Prop) : Prop where
  byScore : t.orders.has score = true ↔ s.orders.has score = true ∨ asked ∨ spelt
  constantScore : t.constantScore = false ↔ s.constantScore = false ∨ asked
  isRandom : t.isRandom = true ↔ s.isRandom = true ∨ random

namespace Takes

variable {s t u : Sorting} {asked spelt random asked' spelt' random' : Prop}

theorem refl (s : Sorting) : s.Takes s False False False := by
  constructor <;> simp only [or_false]

theorem trans (h : s.Takes t asked spelt random) (h' : t.Takes u asked' spelt' random') :
    s.Takes u (asked ∨ asked') (spelt ∨ spelt') (random ∨ random') where
  byScore := by rw [h'.byScore, h.byScore]; tauto
  constantScore := by rw [h'.constantScore, h.constantScore, or_assoc]
  isRandom := by rw [h'.isRandom, h.isRandom, or_assoc]

/-- The same, said in other words. -/
theorem congr (h : s.Takes t asked spelt random) (hasked : asked ↔ asked') (hspelt : spelt ↔ spelt')
    (hrandom : random ↔ random') : s.Takes t asked' spelt' random' where
  byScore := by rw [h.byScore, hasked, hspelt]
  constantScore := by rw [h.constantScore, hasked]
  isRandom := by rw [h.isRandom, hrandom]

end Takes

/-! ## One field more -/

/-- The field of a property has the name of its group in front, and the score has not. -/
theorem inGroup_ne_score (n : Int) (array : String) : Field.inGroup (Field.group n) array ≠ score := by
  intro h
  have hfront := congrArg (fun s : String => s.toList.head?) h
  simp [Field.inGroup, Field.group, score, String.toList_append] at hfront

theorem has_addField (s : Sorting) (field order : String) :
    (s.addField field order).orders.has score = true ↔ s.orders.has score = true ∨ field = score := by
  unfold addField
  split
  · rename_i hfield
    refine ⟨.inl, fun h => h.elim id ?_⟩
    rintro rfl
    exact hfield
  · rw [Table.has_iff, Table.mem_keys_put, Table.has_iff, or_comm, eq_comm (a := field)]

theorem takes_addField (s : Sorting) (field order : String) :
    s.Takes (s.addField field order) False (field = score) False := by
  have hrest : (s.addField field order).constantScore = s.constantScore ∧
      (s.addField field order).isRandom = s.isRandom := by
    unfold addField
    split <;> exact ⟨rfl, rfl⟩
  exact ⟨by rw [has_addField, false_or], by rw [hrest.1, or_false], by rw [hrest.2, or_false]⟩

theorem takes_addOwn (s : Sorting) (order : String) : s.Takes (s.addOwn order) False False False := by
  refine ⟨?_, by simp only [addOwn, or_false], by simp only [addOwn, or_false]⟩
  simp only [addOwn, ownFields, List.foldl_cons, List.foldl_nil, Table.has_iff, Table.mem_keys_put, or_false]
  simp [score]

theorem takes_require (s : Sorting) (field : String) : s.Takes (s.require field) False False False := by
  unfold require
  split
  · exact Takes.refl s
  · constructor <;> simp only [or_false]

/-! ## Chains, keys and all keys -/

/-- The labels of a chain: by induction on them, with the sorting that there is so far. -/
theorem exists_addChain (order : String) (labels : List String) (last : Option String) (s : Sorting)
    (w : World σ) : ∃ t v, (addChain order labels last s).outcome w = (.ok t, v) ∧
      s.Takes t False (score ∈ labels) False := by
  induction labels generalizing last s w with
  | nil =>
      cases last with
      | none => exact ⟨s, w, rfl, (Takes.refl s).congr Iff.rfl (by simp) Iff.rfl⟩
      | some field => exact ⟨_, w, rfl, (takes_require s field).congr Iff.rfl (by simp) Iff.rfl⟩
  | cons label rest ih =>
      rw [addChain]
      by_cases hlabel : label = score
      · rw [if_pos hlabel]
        obtain ⟨t, v, hrun, ht⟩ := ih none (s.addField score order) w
        refine ⟨t, v, hrun, ((takes_addField s score order).trans ht).congr (by simp) ?_ (by simp)⟩
        simp [hlabel]
      · rw [if_neg hlabel]
        let p := w.catalog.findProperty label
        let n := w.catalog.number (.property p)
        let array := Field.inGroup (Field.group n.1)
        have hcatalog : (catalog : Action σ Catalog).outcome w = (.ok w.catalog, w) := rfl
        have hnumber : (numberOf (.property p) : Action σ Int).outcome w =
            (.ok n.1, { w with catalog := n.2 }) := rfl
        obtain ⟨t, v, hrun, ht⟩ := ih (some (array (Field.ofProperty p)))
          (s.addField (array (Field.sortOf p)) order) { w with catalog := n.2 }
        rw [outcome_bind_of_ok hcatalog, outcome_bind_of_ok hnumber]
        refine ⟨t, v, hrun, ((takes_addField s _ order).trans ht).congr (by simp) ?_ (by simp)⟩
        have hfield : array (Field.sortOf p) ≠ score := inGroup_ne_score n.1 _
        simp [hfield, Ne.symm hlabel]

/-- The name of the score is a label of its own. -/
theorem spellsScore_score : SpellsScore score := by decide

theorem not_spellsScore_own {label : String} (h : label = "" ∨ label = "#") : ¬ SpellsScore label := by
  rcases h with rfl | rfl <;> decide

/-- A label that may have taken the place of a key. -/
theorem exists_addLabel (label order : String) (s : Sorting) (w : World σ) :
    ∃ t v, (if label = "" ∨ label = "#" then (return s.addOwn order : Action σ Sorting)
        else addChain order (cut '.' label) none s).outcome w = (.ok t, v) ∧
      s.Takes t False (SpellsScore label) False := by
  by_cases hown : label = "" ∨ label = "#"
  · rw [if_pos hown]
    have hnot := not_spellsScore_own hown
    exact ⟨_, w, rfl, (takes_addOwn s order).congr Iff.rfl (iff_of_false id hnot) Iff.rfl⟩
  · rw [if_neg hown]
    exact exists_addChain order (cut '.' label) none s w

/-- A key: the flag for scores is set by a key that stands for the score and by nothing else. -/
theorem exists_addKey (scoreKey : String) (s : Sorting) (key : String × String) (w : World σ) :
    ∃ t v, (addKey scoreKey s key).outcome w = (.ok t, v) ∧
      s.Takes t (IsScoreKey scoreKey key.1) (SpellsScore key.1) (IsRandomOrder key.2) := by
  let ordered := if occurs "rand" (lowercase key.2) then { s with isRandom := true } else s
  have hordered : s.Takes ordered False False (IsRandomOrder key.2) := by
    by_cases hrandom : occurs "rand" (lowercase key.2) = true
    · simp only [ordered, if_pos hrandom]
      exact ⟨by simp, by simp, by simp [IsRandomOrder, hrandom]⟩
    · simp only [ordered, if_neg hrandom]
      exact (Takes.refl s).congr Iff.rfl Iff.rfl (iff_of_false id hrandom)
  by_cases hscore : IsScoreKey scoreKey key.1
  · -- the name of the score takes the place of the key
    obtain ⟨t, v, hrun, ht⟩ :=
      exists_addLabel score (lowercase key.2) { ordered with constantScore := false } w
    refine ⟨t, v, ?_, ?_⟩
    · have hkey : addKey scoreKey s key = (if score = "" ∨ score = "#" then
          (return { ordered with constantScore := false }.addOwn (lowercase key.2) : Action σ Sorting)
          else addChain (lowercase key.2) (cut '.' score) none { ordered with constantScore := false }) := by
        unfold addKey
        simp only [if_pos (show _ ∧ _ from hscore), ordered]
      rw [hkey, hrun]
    · refine ⟨?_, ?_, ?_⟩
      · simp [ht.byScore, spellsScore_score, hscore]
      · simp [ht.constantScore, hscore]
      · rw [ht.isRandom, or_false]
        simpa using hordered.isRandom
  · obtain ⟨t, v, hrun, ht⟩ := exists_addLabel key.1 (lowercase key.2) ordered w
    refine ⟨t, v, ?_, (hordered.trans ht).congr (by simp [hscore]) (by simp) (by simp)⟩
    have hkey : addKey scoreKey s key = (if key.1 = "" ∨ key.1 = "#" then
        (return ordered.addOwn (lowercase key.2) : Action σ Sorting)
        else addChain (lowercase key.2) (cut '.' key.1) none ordered) := by
      unfold addKey
      simp only [if_neg (show ¬ (_ ∧ _) from hscore), ordered]
    rw [hkey, hrun]

/-- All keys, one after the other. -/
theorem exists_foldlM_addKey (scoreKey : String) (keys : Table String String) (s : Sorting) (w : World σ) :
    ∃ t v, (keys.foldlM (addKey scoreKey) s).outcome w = (.ok t, v) ∧
      s.Takes t (∃ key ∈ keys, IsScoreKey scoreKey key.1) (∃ key ∈ keys, SpellsScore key.1)
        (∃ key ∈ keys, IsRandomOrder key.2) := by
  induction keys generalizing s w with
  | nil => exact ⟨s, w, rfl, (Takes.refl s).congr (by simp) (by simp) (by simp)⟩
  | cons key rest ih =>
      obtain ⟨t, v, hrun, ht⟩ := exists_addKey scoreKey s key w
      obtain ⟨u, x, hrest, hu⟩ := ih t v
      rw [List.foldlM_cons, outcome_bind_of_ok hrun]
      exact ⟨u, x, hrest, (ht.trans hu).congr (by simp) (by simp) (by simp)⟩

end Sorting

/-! ## The search of a query -/

/-- The search sorts by score. -/
def Search.SortsByScore (s : Search) : Prop :=
  ∃ orders order, Table.get? s.body "sort" = some (.arr orders) ∧ .single Sorting.score order ∈ orders

namespace Deployment

variable (d : Deployment σ)

/-- The score is asked for, by an order by score or by a key that stands for the score. -/
def AsksForScore (q : Query) : Prop :=
  q.relevance.isSome = true ∨ ∃ key ∈ q.sortKeys, Sorting.IsScoreKey d.settings.query.scoreKey key.1

/-- The score is spelt out by a key, and not asked for. -/
def SpellsScore (q : Query) : Prop :=
  ¬ d.AsksForScore q ∧ ∃ key ∈ q.sortKeys, Sorting.SpellsScore key.1

/-- All results of the search have one and the same score: the clause of the query is wrapped. -/
def ScoresAlike (q : Query) (w : World σ) (search : Search) : Prop :=
  ∃ s v found u, (d.sorting q.sortKeys q.relevance).outcome w = (.ok s, v) ∧
    (d.compile false q.description).outcome v = (.ok found, u) ∧
    Table.get? search.body "query" = some (Clause.constantScore (d.searchClause false s.required found.1))

/-- There always is a sorting, whatever the sort keys are. It sorts by a score that is asked for or spelt
out, and drops scores unless they are asked for. -/
theorem exists_sorting (q : Query) (w : World σ) :
    ∃ s v, (d.sorting q.sortKeys q.relevance).outcome w = (.ok s, v) ∧
      (s.orders.has Sorting.score = true ↔
        d.AsksForScore q ∨ ∃ key ∈ q.sortKeys, Sorting.SpellsScore key.1) ∧
      (s.constantScore = false ↔ d.AsksForScore q) ∧
      (s.isRandom = true ↔ q.relevance = none ∧ ∃ key ∈ q.sortKeys, Sorting.IsRandomOrder key.2) := by
  unfold sorting AsksForScore
  cases q.relevance with
  | some order =>
      refine ⟨Sorting.byScore order, w, rfl, iff_of_true ?_ (.inl (.inl rfl)), iff_of_true rfl (.inl rfl), ?_⟩
      · simp [Sorting.byScore, Table.has_iff, Table.keys]
      · simp [Sorting.byScore]
  | none =>
      obtain ⟨s, v, hrun, hs⟩ := Sorting.exists_foldlM_addKey d.settings.query.scoreKey q.sortKeys {} w
      refine ⟨s, v, hrun, ?_, ?_, ?_⟩
      · simpa [Table.has_iff, Table.keys] using hs.byScore
      · simpa using hs.constantScore
      · simpa using hs.isRandom

theorem searchClause_true (sorted : List String) (clause : Option Json) :
    d.searchClause true sorted clause = Clause.constantScore (d.searchClause false sorted clause) := rfl

/-- The body of a search that was prepared, with the sorting and the clause that it comes from. -/
theorem exists_of_prepare {q : Query} {w u : World σ} {search : Search}
    (h : (d.prepare q).outcome w = (.ok search, u)) :
    ∃ s v found x, (d.sorting q.sortKeys q.relevance).outcome w = (.ok s, v) ∧
      (d.compile false q.description).outcome v = (.ok found, x) ∧
      search.body = d.searchBody q s (if s.isRandom then
        Clause.shuffled (d.searchClause s.constantScore s.required found.1)
        else d.searchClause s.constantScore s.required found.1) := by
  unfold prepare at h
  obtain ⟨s, v, hs, h⟩ := exists_of_bind_ok h
  obtain ⟨⟨clause, progress⟩, x, hclause, h⟩ := exists_of_bind_ok h
  obtain ⟨text, y, -, h⟩ := exists_of_bind_ok h
  obtain ⟨found, z, hfound, hwrapped⟩ := exists_of_bind_ok hclause
  cases hwrapped
  cases h
  exact ⟨s, v, found, _, hs, hfound, rfl⟩

theorem sortsByScore_iff {q : Query} {s : Sorting} {search : Search} {clause : Json}
    (hbody : search.body = d.searchBody q s clause) :
    search.SortsByScore ↔ s.isRandom = false ∧ s.orders.has Sorting.score = true := by
  have hsort : Table.get? search.body "sort" =
      if s.isRandom = true ∨ s.orders = [] then none else some s.toJson := by
    rw [hbody]
    unfold searchBody
    by_cases hnone : s.isRandom = true ∨ s.orders = [] <;> cases d.settings.query.profile <;>
      simp [hnone, Table.get?]
  unfold Search.SortsByScore
  rw [hsort, Table.has_iff]
  constructor
  · rintro ⟨orders, order, hsome, hmem⟩
    split at hsome
    · cases hsome
    · rename_i hnone
      cases hsome
      obtain ⟨entry, hentry, hsingle⟩ := List.mem_map.mp hmem
      have hkey : entry.1 = Sorting.score := by
        simp only [Json.single, Json.obj.injEq, List.cons.injEq, Prod.mk.injEq] at hsingle
        exact hsingle.1.1
      exact ⟨by simpa using fun h => hnone (.inl h), hkey ▸ List.mem_map_of_mem hentry⟩
  · rintro ⟨hrandom, hscore⟩
    obtain ⟨entry, hentry, hkey⟩ := List.mem_map.mp hscore
    have hsome : ¬ (s.isRandom = true ∨ s.orders = []) := by
      rintro (h | h)
      · rw [hrandom] at h
        cases h
      · rw [h] at hentry
        cases hentry
    refine ⟨_, Sorting.orderJson entry.2, if_neg hsome, List.mem_map.mpr ⟨entry, hentry, ?_⟩⟩
    rw [hkey]

/-- A clause is not itself with something around it. -/
theorem ne_constantScore (clause : Json) : clause ≠ Clause.constantScore clause := by
  intro h
  have hsize := congrArg sizeOf h
  simp only [Clause.constantScore, Json.single, Json.obj.sizeOf_spec, List.cons.sizeOf_spec,
    Prod.mk.sizeOf_spec] at hsize
  omega

/-- All results have the same score exactly if scores are dropped and the order is not random. -/
theorem scoresAlike_iff {q : Query} {w v x : World σ} {s : Sorting} {search : Search}
    {found : Option Json × Progress}
    (hs : (d.sorting q.sortKeys q.relevance).outcome w = (.ok s, v))
    (hfound : (d.compile false q.description).outcome v = (.ok found, x))
    (hbody : search.body = d.searchBody q s (if s.isRandom then
      Clause.shuffled (d.searchClause s.constantScore s.required found.1)
      else d.searchClause s.constantScore s.required found.1)) :
    d.ScoresAlike q w search ↔ s.constantScore = true ∧ s.isRandom = false := by
  have halike : d.ScoresAlike q w search ↔ Table.get? search.body "query" =
      some (Clause.constantScore (d.searchClause false s.required found.1)) := by
    refine ⟨?_, fun h => ⟨s, v, found, x, hs, hfound, h⟩⟩
    rintro ⟨s', v', found', x', hs', hfound', h⟩
    cases hs.symm.trans hs'
    cases hfound.symm.trans hfound'
    exact h
  have hquery : ∀ clause, Table.get? (d.searchBody q s clause) "query" = some clause := fun _ => rfl
  rw [halike, hbody, hquery, Option.some.injEq]
  cases s.isRandom with
  | true => simp [Clause.shuffled, Clause.constantScore, Json.single]
  | false =>
      cases s.constantScore with
      | true => exact iff_of_true (d.searchClause_true _ _) ⟨rfl, rfl⟩
      | false => exact iff_of_false (ne_constantScore _) (by simp)

/-- There always is a sorting. It keeps the scores that it sorts by, unless the score is spelt out by a key and
not asked for. In that case, and in no other, the search sorts its results by score while all of them have the
same one; a random order alone prevents it. -/
theorem keeps_scores_iff (q : Query) (w : World σ) :
    (∃ s v, (d.sorting q.sortKeys q.relevance).outcome w = (.ok s, v) ∧
      ((s.orders.has Sorting.score = true → s.constantScore = false) ↔ ¬ d.SpellsScore q)) ∧
    ∀ search u, (d.prepare q).outcome w = (.ok search, u) →
      (search.SortsByScore ∧ d.ScoresAlike q w search ↔
        d.SpellsScore q ∧ ¬ ∃ key ∈ q.sortKeys, Sorting.IsRandomOrder key.2) := by
  obtain ⟨s, v, hs, hscore, hconstant, hrandom⟩ := d.exists_sorting q w
  constructor
  · refine ⟨s, v, hs, ?_⟩
    rw [hscore, hconstant]
    unfold SpellsScore
    by_cases hasked : d.AsksForScore q <;> simp [hasked]
  · intro search u hprepared
    obtain ⟨s', v', found, x, hs', hfound, hbody⟩ := d.exists_of_prepare hprepared
    cases hs.symm.trans hs'
    rw [d.sortsByScore_iff hbody, d.scoresAlike_iff hs hfound hbody, hscore, ← Bool.not_eq_false, hconstant,
      ← Bool.not_eq_true, hrandom]
    unfold SpellsScore
    by_cases hasked : d.AsksForScore q
    · simp [hasked]
    · have hrelevance : q.relevance = none := by
        cases horder : q.relevance with
        | none => rfl
        | some order => exact absurd (.inl (by rw [horder]; rfl)) hasked
      simp only [hasked, hrelevance, false_or, true_and, not_false_eq_true]
      exact ⟨fun h => ⟨h.1.2, h.2⟩, fun h => ⟨⟨h.2, h.1⟩, h.2⟩⟩

/-- Two keys that sort by score, one that spells it out and one that stands for it. -/
example (w : World σ) :
    ((Sorting.addKey "es.score" {} ("_score", "desc")).outcome w).1 = .ok { orders := [("_score", "desc")] } ∧
      ((Sorting.addKey "es.score" {} ("ES.score", "desc")).outcome w).1 = .ok (Sorting.byScore "desc") :=
  ⟨rfl, rfl⟩

end Deployment

end FactIndex
