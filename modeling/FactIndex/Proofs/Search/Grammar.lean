import FactIndex.Compile.Condition
import FactIndex.Proofs.Search.Matching

/-!
# The grammar of queries

The search engine takes queries of a few kinds only. A query is a condition on one field or a few of
them, a query that is used without a score, or a compound of other queries, of which there is at least
one. The makers of clauses and the conditions on values stay within the grammar, and so does a copy of a
query for another property.

## Main definitions

* `Clause.IsLeaf`: the queries that have no other queries among their members.
* `Clause.IsQuery`: the grammar.
* `Clause.IsQuery.overHierarchy`: a query that also holds for subproperties.
* `Condition.isLeaf_ofProperty`, `Condition.isLeaf_ofEntity`: the conditions on values.
-/

namespace FactIndex

open FactIndex.Text

namespace Clause

/-! ## The grammar -/

/-- The queries that have no other queries among their members. What they look for is any value. -/
inductive IsLeaf : Json → Prop
  | term (field : String) (value : Json) : IsLeaf (.single "term" (.single field value))
  /-- The values are given one by one. -/
  | termsOf (field : String) (values : List Json) :
    IsLeaf (.single "terms" (.single field (.arr values)))
  /-- The values are in a stored list. -/
  | termsAt (field : String) (reference : Members) :
    IsLeaf (.single "terms" (.single field (.obj reference)))
  | match (field : String) (value : Json) (operator : String) :
    IsLeaf (.single "match" (.single field (.obj [("query", value), ("operator", .str operator)])))
  | multiMatch (fields : List String) (value : Json) (operator : String) :
    IsLeaf (.single "multi_match" (.obj [("fields", Json.ofTexts fields), ("query", value),
      ("operator", .str operator)]))
  | matchPhrase (field : String) (value : Json) :
    IsLeaf (.single "match_phrase" (.single field value))
  | queryString (fields : List String) (value : Json) :
    IsLeaf (.single "query_string" (.obj [("fields", Json.ofTexts fields), ("query", value)]))
  | range (field : String) (value : Json) (bound : String) (h : bound ∈ ["gt", "gte", "lt", "lte"]) :
    IsLeaf (.single "range" (.single field (.single bound value)))
  | exists (field : String) : IsLeaf (.single "exists" (.single "field" (.str field)))
  | geoBoundingBox (field : String) (top left bottom right : Json) :
    IsLeaf (.single "geo_bounding_box" (.single field (.obj [
      ("top_left", .obj [("lat", top), ("lon", left)]),
      ("bottom_right", .obj [("lat", bottom), ("lon", right)])])))

/-- The queries that the search engine takes. A compound has members of one kind, at least one. -/
inductive IsQuery : Json → Prop
  | leaf {clause : Json} (h : IsLeaf clause) : IsQuery clause
  | constantScore {clause : Json} (h : IsQuery clause) :
    IsQuery (.single "constant_score" (.single "filter" clause))
  | bool (occur : Occur) {clauses : List Json} (hne : clauses ≠ []) (h : ∀ c ∈ clauses, IsQuery c) :
    IsQuery (.single "bool" (.single occur.key (.arr clauses)))

/-- No query is an empty object. -/
theorem IsQuery.ne_empty {clause : Json} (h : IsQuery clause) : clause ≠ .obj [] := by
  cases h with
  | leaf h => cases h <;> simp [Json.single]
  | constantScore _ => simp [Json.single]
  | bool _ _ _ => simp [Json.single]

/-! ## Makers -/

theorem isLeaf_term (field : String) (value : Json) : IsLeaf (term field value) := .term field value

/-- Whatever the values are: one that is no list and no reference is taken as a list. -/
theorem isLeaf_terms (field : String) (values : Json) : IsLeaf (terms field values) := by
  cases values with
  | arr values => exact .termsOf field values
  | obj reference => exact .termsAt field reference
  | null | bool _ | int _ | float _ | str _ => exact .termsOf field [_]

theorem isLeaf_nothing : IsLeaf nothing := isLeaf_terms _ _

theorem isLeaf_hasField (field : String) : IsLeaf (hasField field) := .exists field

theorem isLeaf_queryString (field : String) (value : Json) : IsLeaf (queryString (.str field) value) :=
  .queryString [field] value

theorem isLeaf_queryStringOf (fields : List String) (value : Json) :
    IsLeaf (queryString (Json.ofTexts fields) value) :=
  .queryString fields value

theorem isLeaf_range {field : String} {value clause : Json} {c : Comparator}
    (h : range field value c = .ok clause) : IsLeaf clause := by
  unfold range at h
  cases c <;> cases h <;> exact .range field value _ (by decide)

/-- A compound of queries, if there are any. -/
theorem IsQuery.compound (occur : Occur) {clauses : List Json} (hne : clauses ≠ [])
    (h : ∀ c ∈ clauses, IsQuery c) : IsQuery (compound occur clauses) :=
  .bool occur hne h

/-- A compound of one query. -/
theorem IsQuery.alone (occur : Occur) {clause : Json} (h : IsQuery clause) :
    IsQuery (Clause.compound occur [clause]) :=
  .bool occur (List.cons_ne_nil _ _) fun _ hc => List.mem_singleton.mp hc ▸ h

/-- A query counts as a list of its own. -/
theorem IsQuery.listed_eq {clause : Json} (h : IsQuery clause) : listed clause = [clause] := by
  cases h with
  | leaf h => cases h <;> rfl
  | constantScore _ => rfl
  | bool _ _ _ => rfl

/-! ## Copies for other properties -/

/-- The member of an object with one member is renamed as a name, as names, or as a clause. -/
private theorem rename_single (old new field : String) (value : Json) :
    renameFields old new (.single field value) = .single (swapFront old new field)
      (if field = "field" then swapName old new value
        else if field = "fields" then renameNames old new value
        else renameFields old new value) := by
  simp only [Json.single, renameFields, renameMembers]
  rfl

/-- The name of a kind of queries is that of no field. -/
private theorem rename_kind (n : Int) (new : String) {kind : String}
    (hkind : kind.toList.head? ≠ some 'P') (hf : kind ≠ "field") (hfs : kind ≠ "fields")
    (body : Json) : renameFields (Field.group n ++ ".") new (.single kind body) =
      .single kind (renameFields (Field.group n ++ ".") new body) := by
  rw [rename_single, swapFront_of_head_ne n new hkind, if_neg hf, if_neg hfs]

/-- What stands under a field is a list afterwards if it was one before. -/
private theorem exists_rename_list (old new field : String) (values : List Json) :
    ∃ field' values', renameFields old new (.single field (.arr values)) =
      .single field' (.arr values') := by
  rw [rename_single]
  simp only [swapName, renameNames, renameFields]
  split
  · exact ⟨_, _, rfl⟩
  · split <;> exact ⟨_, _, rfl⟩

/-- What stands under a field is an object afterwards if it was one before, and its members are either
left alone or renamed. -/
private theorem exists_rename_object (old new field : String) (members : Members) :
    ∃ field', renameFields old new (.single field (.obj members)) = .single field' (.obj members) ∨
      renameFields old new (.single field (.obj members)) =
        .single field' (renameFields old new (.obj members)) := by
  refine ⟨swapFront old new field, ?_⟩
  rw [rename_single]
  simp only [swapName, renameNames, renameFields]
  split
  · exact .inl rfl
  · split <;> exact .inr rfl

private theorem map_swapName (old new : String) (fields : List String) :
    (fields.map Json.str).map (swapName old new) = (fields.map (swapFront old new)).map Json.str := by
  rw [List.map_map, List.map_map]
  rfl

/-- The names of fields under `fields` are replaced one by one. -/
private theorem renameNames_ofTexts (old new : String) (fields : List String) :
    renameNames old new (Json.ofTexts fields) = Json.ofTexts (fields.map (swapFront old new)) := by
  simp only [Json.ofTexts, renameNames, map_swapName]

/-- A leaf that is copied for another property is a leaf of the same kind. -/
theorem IsLeaf.renameFields {clause : Json} (h : IsLeaf clause) (n : Int) (new : String) :
    IsLeaf (Clause.renameFields (Field.group n ++ ".") new clause) := by
  have hswap : ∀ name : String, name.toList.head? ≠ some 'P' →
      swapFront (Field.group n ++ ".") new name = name := fun _ => swapFront_of_head_ne n new
  cases h with
  | term field value =>
      rw [rename_kind n new (by decide) (by decide) (by decide), rename_single]
      exact .term _ _
  | termsOf field values =>
      rw [rename_kind n new (by decide) (by decide) (by decide)]
      obtain ⟨field', values', heq⟩ := exists_rename_list (Field.group n ++ ".") new field values
      rw [heq]
      exact .termsOf field' values'
  | termsAt field reference =>
      rw [rename_kind n new (by decide) (by decide) (by decide)]
      obtain ⟨field', heq | heq⟩ := exists_rename_object (Field.group n ++ ".") new field reference
      · rw [heq]
        exact .termsAt field' reference
      · rw [heq, Clause.renameFields]
        exact .termsAt field' _
  | «match» field value operator =>
      rw [rename_kind n new (by decide) (by decide) (by decide)]
      obtain ⟨field', heq | heq⟩ := exists_rename_object (Field.group n ++ ".") new field
        [("query", value), ("operator", .str operator)]
      · rw [heq]
        exact .match field' value operator
      · rw [heq]
        simp only [Clause.renameFields, renameMembers, hswap "query" (by decide),
          hswap "operator" (by decide)]
        exact .match field' _ operator
  | multiMatch fields value operator =>
      rw [rename_kind n new (by decide) (by decide) (by decide)]
      simp only [Clause.renameFields, renameMembers, hswap "query" (by decide),
        hswap "operator" (by decide), hswap "fields" (by decide),
        renameNames_ofTexts]
      exact .multiMatch _ _ operator
  | matchPhrase field value =>
      rw [rename_kind n new (by decide) (by decide) (by decide), rename_single]
      exact .matchPhrase _ _
  | queryString fields value =>
      rw [rename_kind n new (by decide) (by decide) (by decide)]
      simp only [Clause.renameFields, renameMembers, hswap "query" (by decide),
        hswap "fields" (by decide), renameNames_ofTexts]
      exact .queryString _ _
  | range field value bound hbound =>
      rw [rename_kind n new (by decide) (by decide) (by decide)]
      obtain ⟨field', heq | heq⟩ := exists_rename_object (Field.group n ++ ".") new field
        [(bound, value)]
      · exact heq ▸ .range field' value bound hbound
      · have hhead : ∀ b ∈ ["gt", "gte", "lt", "lte"], b.toList.head? ≠ some 'P' := by decide
        have hinner := rename_single (Field.group n ++ ".") new bound value
        rw [hswap bound (hhead bound hbound)] at hinner
        exact heq ▸ hinner ▸ .range field' _ bound hbound
  | «exists» field =>
      rw [rename_kind n new (by decide) (by decide) (by decide), rename_single,
        hswap "field" (by decide)]
      exact .exists _
  | geoBoundingBox field top left bottom right =>
      rw [rename_kind n new (by decide) (by decide) (by decide)]
      obtain ⟨field', heq | heq⟩ := exists_rename_object (Field.group n ++ ".") new field
        [("top_left", .obj [("lat", top), ("lon", left)]),
          ("bottom_right", .obj [("lat", bottom), ("lon", right)])]
      · rw [heq]
        exact .geoBoundingBox field' top left bottom right
      · rw [heq]
        simp only [Clause.renameFields, renameMembers, hswap "top_left" (by decide),
          hswap "bottom_right" (by decide), hswap "lat" (by decide),
          hswap "lon" (by decide)]
        exact .geoBoundingBox field' _ _ _ _

theorem renameEach_eq_map (old new : String) (clauses : List Json) :
    renameEach old new clauses = clauses.map (Clause.renameFields old new) := by
  induction clauses with
  | nil => rw [renameEach, List.map_nil]
  | cons clause clauses ih => rw [renameEach, List.map_cons, ih]

/-- By induction on the query: its copy for another property is a query. -/
theorem IsQuery.renameFields {clause : Json} (h : IsQuery clause) (n : Int) (new : String) :
    IsQuery (Clause.renameFields (Field.group n ++ ".") new clause) := by
  induction h with
  | leaf h => exact .leaf (h.renameFields n new)
  | constantScore h ih =>
      rw [rename_kind n new (by decide) (by decide) (by decide),
        rename_kind n new (by decide) (by decide) (by decide)]
      exact .constantScore ih
  | @bool occur clauses hne h ih =>
      have hkind : occur.key.toList.head? ≠ some 'P' ∧ occur.key ≠ "field" ∧ occur.key ≠ "fields" := by
        cases occur <;> decide
      rw [rename_kind n new (by decide) (by decide) (by decide),
        rename_kind n new hkind.1 hkind.2.1 hkind.2.2, Clause.renameFields, renameEach_eq_map]
      refine .bool occur (by simpa using hne) fun c hc => ?_
      obtain ⟨member, hmember, rfl⟩ := List.mem_map.mp hc
      exact ih member hmember

/-- A query that also holds for subproperties. -/
theorem IsQuery.overHierarchy {clause : Json} (h : IsQuery clause) (n : Int) (lower : List Int) :
    IsQuery (Clause.overHierarchy clause (Field.group n) lower) := by
  unfold Clause.overHierarchy
  split
  · exact h
  · refine .compound .should (List.cons_ne_nil _ _) fun c hc => ?_
    rcases List.mem_cons.mp hc with rfl | hc
    · exact h
    · obtain ⟨m, -, rfl⟩ := List.mem_map.mp hc
      exact h.renameFields n _

end Clause

/-! ## Conditions on values -/

namespace Condition

open Clause

theorem isLeaf_inBox (field : String) (a : Area) : IsLeaf (inBox field a) := .geoBoundingBox _ _ _ _ _

theorem isLeaf_words (field : String) (value : Json) (operator : String) :
    IsLeaf (words (.str field) value operator) :=
  .match field value operator

theorem isLeaf_textEquals (q : QuerySettings) (normalKeywords : Bool) (type : ValueType)
    (group array s : String) : IsLeaf (textEquals q normalKeywords type group array s).clause := by
  unfold textEquals
  split
  · exact .term _ _
  · split
    · exact .matchPhrase _ _
    · exact .term _ _

theorem isLeaf_uriEquals (q : QuerySettings) (group array s : String) :
    IsLeaf (uriEquals q group array s).clause := by
  unfold uriEquals
  split
  · exact .matchPhrase _ _
  · exact .term _ _

theorem isLeaf_textUnlike (q : QuerySettings) (group array s : String) :
    IsLeaf (textUnlike q group array s).clause := by
  unfold textUnlike
  split <;> exact isLeaf_queryString _ _

theorem isLeaf_uriLike (q : QuerySettings) (group array s : String) (negated : Bool) :
    IsLeaf (uriLike q group array s negated).clause :=
  isLeaf_queryString _ _

theorem isLeaf_bounded {group array : String} {item : Item} {c : Comparator} {value : Json}
    {m : Matched} (h : bounded group array item c value = .ok m) : IsLeaf m.clause := by
  have hclause : ∀ array : String, (do
      let clause ← range (Field.inGroup group array) value c
      return ⟨clause, array, value, false, false⟩ : Except Failure Matched) = .ok m →
        IsLeaf m.clause := by
    intro array h
    rcases hrange : range (Field.inGroup group array) value c with e | clause
    · rw [hrange] at h
      cases h
    · rw [hrange] at h
      cases h
      exact isLeaf_range hrange
  exact hclause _ h

/-- Whatever is compared, and how: the condition on the values of a property is a leaf. -/
theorem isLeaf_ofProperty {q : QuerySettings} {normalKeywords : Bool} {type : ValueType}
    {group array : String} {item : Item} {c : Comparator} {value : Json} {m : Matched}
    (h : ofProperty q normalKeywords type group array item c value = .ok m) : IsLeaf m.clause := by
  unfold ofProperty at h
  dsimp only at h
  split at h
  case h_2 | h_3 | h_4 | h_5 => exact isLeaf_bounded h
  all_goals cases h
  · exact isLeaf_inBox _ _
  · exact isLeaf_textEquals _ _ _ _ _ _
  · exact isLeaf_uriEquals _ _ _ _
  · exact isLeaf_queryStringOf _ _
  · exact isLeaf_textUnlike _ _ _ _
  · exact isLeaf_textUnlike _ _ _ _
  · exact isLeaf_uriLike _ _ _ _ _
  · exact isLeaf_uriLike _ _ _ _ _
  · exact isLeaf_queryString _ _
  · exact isLeaf_terms _ _
  · exact isLeaf_term _ _
  · exact isLeaf_term _ _
  · exact isLeaf_words _ _ _

theorem isLeaf_pattern (q : QuerySettings) (field s : String) : IsLeaf (pattern q field s) := by
  unfold pattern
  dsimp only
  cases afterFront? "~" s with
  | none =>
      dsimp only
      split
      · exact isLeaf_queryString _ _
      · exact isLeaf_words _ _ _
  | some rest =>
      dsimp only
      split
      · exact isLeaf_queryStringOf _ _
      · exact .multiMatch _ _ _

/-- The condition on an entity itself is a leaf as well. -/
theorem isLeaf_ofEntity {q : QuerySettings} {field : String} {item : Item} {c : Comparator}
    {value clause : Json} {isFilter : Bool}
    (h : ofEntity q field item c value = .ok (clause, isFilter)) : IsLeaf clause := by
  have hrange : ∀ {field : String}, ((fun clause => (clause, false)) <$> range field value c :
      Except Failure (Json × Bool)) = .ok (clause, isFilter) → IsLeaf clause := by
    intro field h
    rcases hr : range field value c with e | found
    · rw [hr] at h
      cases h
    · rw [hr] at h
      cases h
      exact isLeaf_range hr
  unfold ofEntity at h
  split at h
  · cases h
    exact isLeaf_inBox _ _
  · split at h
    · exact hrange h
    · split at h
      · cases h
        exact isLeaf_term _ _
      · split at h
        · cases h
          exact isLeaf_words _ _ _
        · cases h
          exact isLeaf_terms _ _
        · cases h
          exact isLeaf_terms _ _
        · cases h
          exact isLeaf_pattern _ _ _
        · cases h
          exact isLeaf_pattern _ _ _
        · split at h
          · exact hrange h
          · cases h
            exact isLeaf_words _ _ _

end Condition

end FactIndex
