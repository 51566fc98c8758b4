import FactIndex.Compile.Condition
import FactIndex.Proofs.Search.Matching

/-!
# Clauses that ask for no stored list

What a condition on values selects has nothing to do with the lists that have been stored: it names the
values that it asks for. Neither have its copies for subproperties.

## Main definitions

* `Clause.IsSelfContained`: a clause that selects the same whatever has been stored.
* `Clause.IsElementary`: a clause without members of its own and without a reference.
* `Condition.isElementary_ofProperty`, `Condition.isElementary_ofEntity`: conditions on values and on
  entities are such.
-/

namespace FactIndex

namespace Clause

/-- A clause selects the same whatever references stand for. -/
def IsSelfContained (clause : Json) : Prop :=
  ∀ (M : Matching) (stored : Json → List Json) (doc : Indexed),
    holds { M with stored } doc clause = holds M doc clause

theorem isSelfContained_compound (occur : Occur) {clauses : List Json}
    (h : ∀ clause ∈ clauses, IsSelfContained clause) : IsSelfContained (compound occur clauses) := by
  intro M stored doc
  have hall : clauses.all (holds { M with stored } doc) = clauses.all (holds M doc) := by
    rw [Bool.eq_iff_iff, List.all_eq_true, List.all_eq_true]
    exact forall_congr' fun clause => imp_congr_right fun hmem => by rw [h clause hmem M stored doc]
  have hany : clauses.any (holds { M with stored } doc) = clauses.any (holds M doc) := by
    rw [Bool.eq_iff_iff, List.any_eq_true, List.any_eq_true]
    exact exists_congr fun clause => and_congr_right fun hmem => by rw [h clause hmem M stored doc]
  cases occur with
  | must => rw [holds_must, holds_must, hall]
  | should => rw [holds_should, holds_should, hany]
  | mustNot => rw [holds_mustNot, holds_mustNot, hany]
  | filter => rw [holds_filter, holds_filter, hall]

theorem isSelfContained_hasField (field : String) : IsSelfContained (hasField field) := by
  intro M stored doc
  rw [holds_hasField, holds_hasField]

/-- A clause of a kind that is not made of others, whose name is that of no field. If it asks for one of
several values, then it has a list of them. -/
def IsElementary (clause : Json) : Prop :=
  ∃ kind body, clause = .single kind body ∧ kind.toList.head? ≠ some 'P' ∧
    kind ∉ ["bool", "constant_score", "function_score"] ∧
    (kind = "terms" → ∃ field values, body = .single field (.arr values))

theorem isElementary_single {kind : String} (body : Json)
    (h : kind.toList.head? ≠ some 'P' ∧
      kind ∉ ["bool", "constant_score", "function_score", "terms"]) :
    IsElementary (.single kind body) :=
  ⟨kind, body, rfl, h.1, fun hmem => h.2 (List.mem_append_left ["terms"] hmem),
    fun hterms => absurd (List.mem_append_right ["bool", "constant_score", "function_score"]
      (List.mem_singleton.mpr hterms)) h.2⟩

theorem isElementary_terms (field : String) {value : Json} (h : ∀ ms, value ≠ .obj ms) :
    IsElementary (terms field value) := by
  refine ⟨"terms", _, rfl, by decide, by decide, fun _ => ?_⟩
  cases value with
  | obj ms => exact absurd rfl (h ms)
  | null | bool | int | float | str | arr => exact ⟨field, _, rfl⟩

theorem isElementary_range {field : String} {value clause : Json} {c : Comparator}
    (h : range field value c = .ok clause) : IsElementary clause := by
  unfold range at h
  split at h
  · cases h
    exact isElementary_single _ (by decide)
  · cases h

theorem isSelfContained_of_isElementary {clause : Json} (h : IsElementary clause) :
    IsSelfContained clause := by
  obtain ⟨kind, body, rfl, -, hkind, hterms⟩ := h
  simp only [List.mem_cons, List.not_mem_nil, or_false, not_or] at hkind
  intro M stored doc
  simp only [Json.single, holds, hkind, if_false]
  by_cases hlist : kind = "terms"
  · obtain ⟨field, values, rfl⟩ := hterms hlist
    subst hlist
    rfl
  · unfold Matching.leaf
    split <;> first | rfl | exact absurd rfl hlist

theorem isElementary_words (field value : Json) (operator : String) :
    IsElementary (words field value operator) := by
  unfold words
  split
  · exact isElementary_single _ (by decide)
  · exact isElementary_single _ (by decide)

theorem listed_of_isElementary {clause : Json} (h : IsElementary clause) :
    listed clause = [clause] := by
  obtain ⟨kind, body, rfl, -⟩ := h
  rfl

/-- The copy of an elementary clause for another property is elementary. -/
theorem isElementary_renameFields {clause : Json} (h : IsElementary clause) (n : Int) (new : String) :
    IsElementary (renameFields (Field.group n ++ ".") new clause) := by
  obtain ⟨kind, body, rfl, hhead, hkind, hterms⟩ := h
  have hcopy : renameFields (Field.group n ++ ".") new (.single kind body) = .single kind
      (if kind = "field" then swapName (Field.group n ++ ".") new body
        else if kind = "fields" then renameNames (Field.group n ++ ".") new body
        else renameFields (Field.group n ++ ".") new body) := by
    simp only [Json.single, renameFields, renameMembers, swapFront_of_head_ne n new hhead]
    rfl
  rw [hcopy]
  refine ⟨kind, _, rfl, hhead, hkind, fun hlist => ?_⟩
  obtain ⟨field, values, rfl⟩ := hterms hlist
  subst hlist
  rw [if_neg (by decide), if_neg (by decide), Json.single, renameFields, renameMembers, renameMembers]
  split
  · exact ⟨_, _, rfl⟩
  · split
    · rw [renameNames]
      exact ⟨_, _, rfl⟩
    · rw [renameFields]
      exact ⟨_, _, rfl⟩

theorem isSelfContained_overHierarchy {clause : Json} (h : IsElementary clause) (n : Int)
    (lower : List Int) : IsSelfContained (overHierarchy clause (Field.group n) lower) := by
  unfold overHierarchy
  split
  · exact isSelfContained_of_isElementary h
  · refine isSelfContained_compound _ fun copy hcopy => ?_
    rcases List.mem_cons.mp hcopy with rfl | hcopy
    · exact isSelfContained_of_isElementary h
    · obtain ⟨m, -, rfl⟩ := List.mem_map.mp hcopy
      exact isSelfContained_of_isElementary (isElementary_renameFields h n _)

end Clause

namespace Condition

open Clause

theorem isElementary_textEquals (q : QuerySettings) (normalKeywords : Bool) (type : ValueType)
    (group array text : String) :
    IsElementary (textEquals q normalKeywords type group array text).clause := by
  unfold textEquals
  dsimp only
  split
  · exact isElementary_single _ (by decide)
  · split
    · exact isElementary_single _ (by decide)
    · exact isElementary_single _ (by decide)

theorem isElementary_uriEquals (q : QuerySettings) (group array text : String) :
    IsElementary (uriEquals q group array text).clause := by
  unfold uriEquals
  dsimp only
  split
  · exact isElementary_single _ (by decide)
  · exact isElementary_single _ (by decide)

theorem isElementary_textUnlike (q : QuerySettings) (group array text : String) :
    IsElementary (textUnlike q group array text).clause := by
  unfold textUnlike
  dsimp only
  split
  · exact isElementary_single _ (by decide)
  · exact isElementary_single _ (by decide)

theorem isElementary_bounded {group array : String} {item : Item} {c : Comparator} {value : Json}
    {m : Matched} (h : bounded group array item c value = .ok m) : IsElementary m.clause := by
  have hmade : ∀ {x : Except Failure Json} {f : Json → Matched},
      (x >>= fun clause => pure (f clause)) = .ok m → ∃ clause, x = .ok clause ∧ f clause = m := by
    intro x f h
    cases x with
    | error e => cases h
    | ok clause => exact ⟨clause, rfl, Except.ok.inj h⟩
  obtain ⟨clause, hclause, rfl⟩ := hmade h
  exact isElementary_range hclause

/-- A condition on the values of a property is elementary. -/
theorem isElementary_ofProperty {q : QuerySettings} {normalKeywords : Bool} {type : ValueType}
    {group array : String} {item : Item} {c : Comparator} {value : Json} {m : Matched}
    (hvalue : ∀ ms, value ≠ .obj ms)
    (h : ofProperty q normalKeywords type group array item c value = .ok m) :
    IsElementary m.clause := by
  unfold ofProperty at h
  dsimp only at h
  split at h
  · cases h
    exact isElementary_single _ (by decide)
  · exact isElementary_bounded h
  · exact isElementary_bounded h
  · exact isElementary_bounded h
  · exact isElementary_bounded h
  · cases h
    exact isElementary_textEquals _ _ _ _ _ _
  · cases h
    exact isElementary_uriEquals _ _ _ _
  · cases h
    exact isElementary_single _ (by decide)
  · cases h
    exact isElementary_textUnlike _ _ _ _
  · cases h
    exact isElementary_textUnlike _ _ _ _
  · cases h
    exact isElementary_single _ (by decide)
  · cases h
    exact isElementary_single _ (by decide)
  · cases h
    exact isElementary_single _ (by decide)
  · cases h
    exact isElementary_terms _ hvalue
  · cases h
    exact isElementary_single _ (by decide)
  · cases h
    exact isElementary_single _ (by decide)
  · cases h
    exact isElementary_single _ (by decide)

theorem isElementary_pattern (q : QuerySettings) (field s : String) :
    IsElementary (pattern q field s) := by
  unfold pattern
  dsimp only
  split
  · exact isElementary_single _ (by decide)
  · exact isElementary_words _ _ _

/-- Every comparison of an entity makes an elementary clause. -/
theorem isElementary_ofEntity (q : QuerySettings) (field : String) (item : Item) (c : Comparator)
    {value : Json} (hvalue : ∀ ms, value ≠ .obj ms) :
    ∃ clause isFilter, ofEntity q field item c value = .ok (clause, isFilter) ∧
      IsElementary clause := by
  have hrange : ∀ field, c.isRange = true → ∃ clause isFilter,
      (fun clause => (clause, false)) <$> Clause.range field value c = .ok (clause, isFilter) ∧
        IsElementary clause := by
    intro field hc
    obtain ⟨bound, hbound⟩ : ∃ bound, c.bound? = some bound := by
      cases c <;> first | exact ⟨_, rfl⟩ | cases hc
    have hclause : Clause.range field value c =
        .ok (.single "range" (.single field (.single bound value))) := by
      unfold Clause.range
      rw [hbound]
    rw [hclause]
    exact ⟨_, _, rfl, isElementary_single _ (by decide)⟩
  unfold ofEntity
  split
  · exact ⟨_, _, rfl, isElementary_single _ (by decide)⟩
  · split
    · rename_i hpage
      exact hrange _ (Bool.and_eq_true_iff.mp hpage).2
    · split
      · exact ⟨_, _, rfl, isElementary_single _ (by decide)⟩
      · split
        · exact ⟨_, _, rfl, isElementary_words _ _ _⟩
        · exact ⟨_, _, rfl, isElementary_terms _ hvalue⟩
        · exact ⟨_, _, rfl, isElementary_terms _ hvalue⟩
        · exact ⟨_, _, rfl, isElementary_pattern _ _ _⟩
        · exact ⟨_, _, rfl, isElementary_pattern _ _ _⟩
        · split
          · rename_i hc
            exact hrange _ hc
          · exact ⟨_, _, rfl, isElementary_words _ _ _⟩

end Condition

end FactIndex
