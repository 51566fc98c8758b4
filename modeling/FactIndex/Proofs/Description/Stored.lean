import FactIndex.Description.Json
import FactIndex.Proofs.Fact.Stored
import FactIndex.Proofs.Json.Floats
import FactIndex.Proofs.Json.Nesting

/-!
# Stored descriptions are read back

A description is stored as the text of its JSON form. The form gives back the description, whatever it
consists of. The text gives back the form as long as the objects and lists in it that hold something are not
nested more deeply than the reader allows; otherwise the text is refused. Nothing is lost in the text in
either case, so that descriptions with the same text are the same.

## Main definitions

* `Description.floats`, `Description.IsFinite`: the floats in a description, and that all of them have a
  value.
* `Description.read_toJson`: the JSON form gives back the description.
* `Description.parse_stored`: the stored text gives back the description unless it is nested too deeply.
-/

namespace FactIndex

open FactIndex.Schema FactIndex.Decimal

namespace Description

/-! ## The JSON form -/

mutual

/-- By induction on the description: its JSON form is read back. -/
theorem read_toJson (fromText : Bool) : (d : Description) → read fromText d.toJson = .ok d
  | .conjunction ds => by
      show (conjunction <$> (readEach fromText 0 (toJsonList ds)).within (.field "descriptions")).within
        (.field "conjunction") = _
      rw [readEach_toJsonList fromText 0 ds]
      rfl
  | .disjunction ds => by
      show (disjunction <$> (readEach fromText 0 (toJsonList ds)).within (.field "descriptions")).within
        (.field "disjunction") = _
      rw [readEach_toJsonList fromText 0 ds]
      rfl
  | .category categories depth negated => by
      show (category <$> (sequenceOf Entity.read (.arr (categories.map Entity.toJson))).within
          (.field "categories") <*> (optional integer (Json.ofInt? depth)).within (.field "hierarchy_depth") <*>
          .ok negated).within (.field "class") = _
      rw [inverts_sequenceOf Entity.inverts_read categories, inverts_optional_integer depth]
      rfl
  | .concept c => by
      show (concept <$> (Entity.read c.toJson).within (.field "concept")).within (.field "concept") = _
      rw [Entity.inverts_read c]
      rfl
  | .space n => rfl
  | .someProperty p inner depth => by
      show (someProperty <$> (Property.read p.toJson).within (.field "property") <*>
          (read fromText inner.toJson).within (.field "description") <*>
          (optional integer (Json.ofInt? depth)).within (.field "hierarchy_depth")).within
        (.field "some_property") = _
      rw [Property.inverts_read p, read_toJson fromText inner, inverts_optional_integer depth]
      rfl
  | .value item comparator property => by
      show (value <$> (Item.read fromText item.toJson).within (.field "data_item") <*>
          (Comparator.read (.str comparator.mark)).within (.field "comparator") <*>
          (optional Property.read ((property.map Property.toJson).getD .null)).within
            (.field "property")).within (.field "value") = _
      rw [Item.inverts_read fromText item, Comparator.inverts_read comparator,
        Property.inverts_optional property]
      rfl
  | .thing negated => rfl

theorem readEach_toJsonList (fromText : Bool) (i : Nat) :
    (ds : List Description) → readEach fromText i (toJsonList ds) = .ok ds
  | [] => rfl
  | d :: ds => by
      rw [toJsonList, readEach, read_toJson fromText d, readEach_toJsonList fromText (i + 1) ds]
      rfl

end

/-! ## The floats in a description -/

mutual

/-- The floats in a description. -/
def floats : Description → List Float
  | .conjunction ds => floatsEach ds
  | .disjunction ds => floatsEach ds
  | .someProperty _ inner _ => inner.floats
  | .value item _ _ => item.floats
  | .category _ _ _ | .concept _ | .space _ | .thing _ => []

/-- The floats in several descriptions. -/
def floatsEach : List Description → List Float
  | [] => []
  | d :: ds => d.floats ++ floatsEach ds

end

/-- All floats in a description have a value. -/
def IsFinite (d : Description) : Prop := ∀ x ∈ d.floats, (binary? x).isSome = true

theorem isFinite_thing (negated : Bool) : (thing negated).IsFinite := by
  simp [IsFinite, floats]

/-! ## The stored text -/

open Json

variable {style : Style}

mutual

/-- By induction on the description: with floats that are read back its form is written so that it can be
read back with enough room. -/
theorem exists_isReadable_toJson : (d : Description) → (∀ x ∈ d.floats, ReadsFloat style.floats x) →
    ∃ n, IsReadable style n d.toJson
  | .conjunction ds, h => by
      obtain ⟨n, hds⟩ := exists_isReadable_toJsonList ds h
      refine ⟨n + 2, .obj (show ["type", "descriptions"].Nodup by decide) ?_⟩
      simp only [List.forall_mem_cons]
      exact ⟨.str _, .arr hds, List.forall_mem_nil _⟩
  | .disjunction ds, h => by
      obtain ⟨n, hds⟩ := exists_isReadable_toJsonList ds h
      refine ⟨n + 2, .obj (show ["type", "descriptions"].Nodup by decide) ?_⟩
      simp only [List.forall_mem_cons]
      exact ⟨.str _, .arr hds, List.forall_mem_nil _⟩
  | .category categories depth negated, _ => by
      have hkeys : ["type", "categories", "hierarchy_depth", "negated"].Nodup := by decide
      have hcategories : IsReadable style 2 (.arr (categories.map Entity.toJson)) := by
        refine .arr fun j hj => ?_
        obtain ⟨c, -, rfl⟩ := List.mem_map.mp hj
        exact c.isReadable_toJson
      refine ⟨3, .obj hkeys ?_⟩
      simp only [List.forall_mem_cons]
      exact ⟨.str _, hcategories, isReadable_ofInt? _, .bool _, List.forall_mem_nil _⟩
  | .concept c, _ => by
      refine ⟨2, .obj (show ["type", "concept"].Nodup by decide) ?_⟩
      simp only [List.forall_mem_cons]
      exact ⟨.str _, c.isReadable_toJson, List.forall_mem_nil _⟩
  | .space n, _ => by
      refine ⟨1, .obj (show ["type", "namespace"].Nodup by decide) ?_⟩
      simp only [List.forall_mem_cons]
      exact ⟨.str _, .int _, List.forall_mem_nil _⟩
  | .someProperty p inner depth, h => by
      obtain ⟨n, hinner⟩ := exists_isReadable_toJson inner h
      have hkeys : ["type", "property", "description", "hierarchy_depth"].Nodup := by decide
      refine ⟨n + 2, .obj hkeys ?_⟩
      simp only [List.forall_mem_cons]
      exact ⟨.str _, p.isReadable_toJson, hinner.mono (Nat.le_succ n), isReadable_ofInt? _,
        List.forall_mem_nil _⟩
  | .value item comparator property, h => by
      have hkeys : ["type", "data_item", "comparator", "property"].Nodup := by decide
      have hproperty : IsReadable style 1 ((property.map Property.toJson).getD .null) := by
        cases property with
        | none => exact .null
        | some p => exact p.isReadable_toJson
      refine ⟨2, .obj hkeys ?_⟩
      simp only [List.forall_mem_cons]
      exact ⟨.str _, Item.isReadable_toJson h, .str _, hproperty, List.forall_mem_nil _⟩
  | .thing negated, _ => by
      refine ⟨1, .obj (show ["type", "negated"].Nodup by decide) ?_⟩
      simp only [List.forall_mem_cons]
      exact ⟨.str _, .bool _, List.forall_mem_nil _⟩

theorem exists_isReadable_toJsonList : (ds : List Description) →
    (∀ x ∈ floatsEach ds, ReadsFloat style.floats x) →
    ∃ n, ∀ j ∈ toJsonList ds, IsReadable style n j
  | [], _ => ⟨0, List.forall_mem_nil _⟩
  | d :: ds, h => by
      obtain ⟨hd, hds⟩ := List.forall_mem_append.mp h
      obtain ⟨n, hn⟩ := exists_isReadable_toJson d hd
      obtain ⟨m, hm⟩ := exists_isReadable_toJsonList ds hds
      refine ⟨max n m, List.forall_mem_cons.mpr ⟨hn.mono (Nat.le_max_left n m), fun j hj => ?_⟩⟩
      exact (hm j hj).mono (Nat.le_max_right n m)

end

theorem isPlain_document : Style.document.IsPlain where
  between := ⟨0, rfl⟩
  afterKey := ⟨0, rfl⟩
  isUnsorted := rfl
  names := by
    intro name hname
    simp only [List.mem_cons, List.not_mem_nil, or_false] at hname
    rcases hname with rfl | rfl | rfl <;> exact ⟨by decide, by decide⟩

theorem IsFinite.exists_isReadable {d : Description} (h : d.IsFinite) :
    ∃ n, IsReadable .document n d.toJson :=
  exists_isReadable_toJson d fun x hx => readsFloat_document (h x hx)

/-- The stored text is read back if what is in it is not nested too deeply, and refused otherwise. -/
theorem IsFinite.parse_stored_eq {d : Description} (h : d.IsFinite) :
    parse d.stored = if d.toJson.nesting 0 ≤ storedDepth then .ok d
      else .error (.badRequest "Invalid description" [⟨[], .jsonInvalid⟩]) := by
  obtain ⟨n, hreadable⟩ := h.exists_isReadable
  unfold parse stored
  rw [parseFilled?_print_eq isPlain_document hreadable]
  by_cases hroom : d.toJson.nesting 0 ≤ storedDepth
  · rw [if_pos hroom, if_pos hroom]
    simp only
    rw [read_toJson]
    rfl
  · rw [if_neg hroom, if_neg hroom]
    rfl

/-- Nothing is lost in the stored text. -/
theorem IsFinite.eq_of_stored_eq {d e : Description} (hd : d.IsFinite) (he : e.IsFinite)
    (h : d.stored = e.stored) : d = e := by
  obtain ⟨n, hn⟩ := hd.exists_isReadable
  obtain ⟨m, hm⟩ := he.exists_isReadable
  have hform : d.toJson = e.toJson := by
    have hread := parse?_print isPlain_document (hn.mono (Nat.le_max_left n m))
    have hread' := parse?_print isPlain_document (hm.mono (Nat.le_max_right n m))
    unfold stored at h
    rw [h, hread'] at hread
    exact (Option.some.inj hread).symm
  have hsame : read true d.toJson = read true e.toJson := by rw [hform]
  rw [read_toJson, read_toJson] at hsame
  cases hsame
  rfl

/-- A description whose floats have a value is read back from the text under which it is stored if the
objects and lists in the text that hold something are nested at most two hundred deep. Otherwise the text is
refused as a bad request. Unless the digests of two such texts coincide although the texts differ, the
descriptions have the same fingerprint only if they are the same. -/
theorem parse_stored (d : Description) (hd : d.IsFinite) :
    (d.toJson.nesting 0 ≤ storedDepth → parse d.stored = .ok d) ∧
    (storedDepth < d.toJson.nesting 0 →
      parse d.stored = .error (.badRequest "Invalid description" [⟨[], .jsonInvalid⟩])) ∧
    ∀ e : Description, e.IsFinite → (Digest.md5 d.stored = Digest.md5 e.stored → d.stored = e.stored) →
      (d.fingerprint = e.fingerprint ↔ d = e) := by
  refine ⟨fun hroom => ?_, fun hdeep => ?_, fun e he hmd5 => ⟨fun h => ?_, fun h => h ▸ rfl⟩⟩
  · rw [hd.parse_stored_eq, if_pos hroom]
  · rw [hd.parse_stored_eq, if_neg (Nat.not_le_of_gt hdeep)]
  · exact hd.eq_of_stored_eq he (hmd5 h)

/-- Large towns, by a name with a quote, a backslash, a line break and a character outside of ASCII. -/
private def largeTowns : Description :=
  .conjunction [.category [{ title := "Town", space := 14, sortkey := some "\"A\\\nü" }] (some 2) false,
    .someProperty { key := "Area", valueType := .number } (.value (.number 1.5) .geq none) none]

theorem parse_stored_largeTowns :
    largeTowns.IsFinite ∧ largeTowns.toJson.nesting 0 ≤ storedDepth ∧
      parse largeTowns.stored = .ok largeTowns ∧
      Digest.md5 (thing true).stored ≠ Digest.md5 (thing false).stored ∧
      (thing true).fingerprint ≠ (thing false).fingerprint := by
  have hfinite : largeTowns.IsFinite := by
    intro x hx
    obtain rfl : x = 1.5 := by simpa [largeTowns, floats, floatsEach, Item.floats] using hx
    decide +kernel
  have hroom : largeTowns.toJson.nesting 0 ≤ storedDepth := by decide +kernel
  have hdigests : Digest.md5 (thing true).stored ≠ Digest.md5 (thing false).stored := by decide +kernel
  have hsame := (parse_stored (thing true) (isFinite_thing _)).2.2 (thing false) (isFinite_thing _)
    fun h => absurd h hdigests
  refine ⟨hfinite, hroom, (parse_stored largeTowns hfinite).1 hroom, hdigests, fun h => ?_⟩
  exact absurd (hsame.mp h) (by simp)

/-- All entities, in so many compounds with one member. -/
private def boxed : ℕ → Description
  | 0 => .thing false
  | n + 1 => .conjunction [boxed n]

private theorem nesting_boxed (n : ℕ) : (boxed n).toJson.nesting 0 = 2 * n + 1 := by
  induction n with
  | zero => rfl
  | succ n ih =>
      simp only [boxed, toJson, toJsonList, Json.nesting, nestingMembers, nestingEach, ih, List.isEmpty_cons,
        Bool.false_eq_true, if_false]
      omega

private theorem isFinite_boxed (n : ℕ) : (boxed n).IsFinite := by
  induction n with
  | zero => exact isFinite_thing false
  | succ n ih =>
      intro x hx
      simp only [boxed, floats, floatsEach, List.append_nil] at hx
      exact ih x hx

/-- What is nested in more than a hundred compounds is stored, but not read back. -/
theorem parse_stored_boxed : (boxed 105).IsFinite ∧
    parse (boxed 105).stored = .error (.badRequest "Invalid description" [⟨[], .jsonInvalid⟩]) ∧
    ¬ ∀ d : Description, d.IsFinite → parse d.stored = .ok d := by
  have hfinite := isFinite_boxed 105
  have hdeep : ¬ (boxed 105).toJson.nesting 0 ≤ storedDepth := by
    rw [nesting_boxed]
    decide
  have hrefused := hfinite.parse_stored_eq
  rw [if_neg hdeep] at hrefused
  refine ⟨hfinite, hrefused, fun h => ?_⟩
  rw [h _ hfinite] at hrefused
  cases hrefused

end Description

end FactIndex
