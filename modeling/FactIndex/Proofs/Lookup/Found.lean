import FactIndex.Proofs.Json.Floats
import FactIndex.Proofs.Lookup.Recall

/-!
# What lookups find

A lookup reads what it has found off the answer to one search, and what is remembered of it depends on
nothing else. It can be stored if the answer can be, and what was remembered stands for the same clause as
what was found.

## Main definitions

* `ClientError.ofSearch`, `Lookup.ofSearch`: the answer to a search, as a search and as a lookup read it.
* `Lookup.valueOf`, `Lookup.materializedOf`: what is remembered, and what a lookup results in.
* `Lookup.readBack_valueOf`: what was remembered is read back.
* `LookupCall.run_of_lookup?`: a call that resolves a lookup.
-/

namespace FactIndex

open FactIndex.Effect

variable {σ : Type}

/-! ## Answers to searches -/

/-- The answer to a search, read as the search does. -/
def ClientError.ofSearch : Except ClientError Json → Except Failure (Members × List String)
  | .ok answer => (·, []) <$> answer.paired
  | .error (.refused status error reason) =>
    .ok ([], [(ClientError.refused status error reason).message])
  | .error e => .error (Deployment.asFailure e)

/-- A search that was refused has no answer. -/
theorem ClientError.eq_nil_of_ofSearch {answer : Except ClientError Json} {ms : Members} {errors : List String}
    (h : ofSearch answer = .ok (ms, errors)) : errors = [] ∨ ms = [] := by
  unfold ofSearch at h
  split at h
  · rename_i answer
    cases hpaired : answer.paired with
    | error e =>
        rw [hpaired] at h
        cases h
    | ok ms =>
        rw [hpaired] at h
        cases h
        exact .inl rfl
  · cases h
    exact .inr rfl
  · cases h

theorem Deployment.search_eq (d : Deployment σ) (index : String) (body : Members) : d.search index body =
    ask d (.search index (body.map fun m => (optionName m.1, m.2))) >>= fun answer =>
      Effect.ofExcept (ClientError.ofSearch answer) := by
  refine Effect.ext fun w => ?_
  unfold search
  rw [outcome_bind_of_ok (outcome_ask d _ w), outcome_bind_of_ok (outcome_ask d _ w)]
  rcases (d.client.send _ w.engine).1 with e | answer
  · cases e <;> rfl
  · dsimp only [ClientError.ofSearch]
    cases answer.paired <;> rfl

/-! ## Lookups -/

namespace Lookup

variable {d : Deployment σ} {l : Lookup} {found : Found} {answer : Except ClientError Json}

/-- The search of a lookup. -/
def request (d : Deployment σ) (l : Lookup) : Request :=
  .search (d.indexName IndexType.data) (l.body.map fun m => (Deployment.optionName m.1, m.2))

/-- The answer to the search of a lookup, read as the lookup does. -/
def ofSearch (l : Lookup) (answer : Except ClientError Json) : Except Failure Found := do
  let (answer, errors) ← ClientError.ofSearch answer
  let (count, ids) ← l.ofAnswer answer
  return ⟨count, ids, errors⟩

/-- What is found as it is used in a clause: the numbers, or a reference to the document that holds
them. -/
def numbersOf (d : Deployment σ) (l : Lookup) (found : Found) : Json :=
  if l.isStored found then Clause.reference (d.indexName IndexType.lookup) l.id "id" else .arr found.ids

/-- The name under which that is remembered. -/
def nameOf (l : Lookup) (found : Found) : String := if l.isStored found then "ref" else "ids"

/-- The value that is remembered. -/
def valueOf (d : Deployment σ) (l : Lookup) (found : Found) : Json :=
  remembered found.count (l.nameOf found) (l.numbersOf d found)

/-- The result of a lookup that has searched. -/
def materializedOf (d : Deployment σ) (l : Lookup) (found : Found) : Materialized :=
  ⟨.int found.count, l.numbersOf d found,
    (if found.errors.isEmpty then [] else [("errors", Json.ofTexts found.errors)]) ++
      [("count", .int found.count), ("is_from_cache", .bool false)]⟩

theorem find_eq (l : Lookup) : l.find d =
    ask d (l.request d) >>= fun answer => Effect.ofExcept (l.ofSearch answer) := by
  refine Effect.ext fun w => ?_
  unfold find
  rw [d.search_eq, bind_assoc]
  refine congrFun (congrArg _ (bind_congr fun answer => Effect.ext fun w => ?_)) w
  rw [outcome_bind, outcome_ofExcept, outcome_ofExcept]
  unfold ofSearch
  rcases ClientError.ofSearch answer with e | ⟨answer, errors⟩
  · rfl
  · show (Effect.ofExcept (l.ofAnswer answer) >>= _).outcome w = _
    rw [outcome_bind, outcome_ofExcept]
    show _ = ((do
      let (count, ids) ← l.ofAnswer answer
      return ⟨count, ids, errors⟩ : Except Failure Found), w)
    rcases l.ofAnswer answer with e | ⟨count, ids⟩ <;> rfl

/-- What was remembered of a lookup with the same key is taken for the result that it is. -/
theorem ofRemembered_valueOf {l' : Lookup} : l.ofRemembered (l'.valueOf d found) =
    .ok ⟨.int found.count, l'.numbersOf d found,
      [("count", .int found.count), ("is_from_cache", .single "id" (.str l.id))]⟩ := by
  unfold valueOf nameOf numbersOf
  cases l'.isStored found <;> rfl

theorem own_ofRemembered (l : Lookup) (value : Json) :
    Failure.Own (l.ofRemembered value) := by
  unfold ofRemembered
  split
  · exact .error rfl
  · split
    · exact .ok _
    · exact .ok _
    · exact .error rfl

/-- A search that was refused has found nothing. -/
theorem isStored_of_errors (h : l.ofSearch answer = .ok found) (herrors : found.errors ≠ []) :
    l.isStored found = false := by
  have hnothing : ∀ found : Int × List Json, l.ofAnswer [] = .ok found → found.2 = [] := by
    intro found hfound
    unfold ofAnswer at hfound
    cases hfield : l.field with
    | none =>
        rw [hfield] at hfound
        cases hfound
        rfl
    | some field =>
        rw [hfield] at hfound
        cases hfound
        rfl
  obtain ⟨⟨ms, errors⟩, hsearch, h⟩ := Failure.exists_of_bind_ok h
  obtain ⟨⟨count, ids⟩, hanswer, h⟩ := Failure.exists_of_bind_ok h
  cases h
  rcases ClientError.eq_nil_of_ofSearch hsearch with herror | rfl
  · exact absurd herror herrors
  · have hids : ids = [] := hnothing _ hanswer
    simp [isStored, hids]

end Lookup

/-! ## What can be stored -/

namespace Json

variable {n m : Nat} {value found : Json} {xs : List Json} {ms : Members}

theorem Fits.mono (h : Fits n value) (hle : n ≤ m) : Fits m value := by
  induction h generalizing m with
  | null => exact .null
  | bool b => exact .bool b
  | int k => exact .int k
  | float x => exact .float x
  | str s => exact .str s
  | arr _ ih =>
      obtain ⟨m, rfl⟩ := Nat.exists_eq_add_one_of_ne_zero (Nat.ne_zero_of_lt hle)
      exact .arr fun x hx => ih x hx (Nat.le_of_succ_le_succ hle)
  | obj hkeys _ ih =>
      obtain ⟨m, rfl⟩ := Nat.exists_eq_add_one_of_ne_zero (Nat.ne_zero_of_lt hle)
      exact .obj hkeys fun x hx => ih x hx (Nat.le_of_succ_le_succ hle)

theorem Fits.elements (h : Fits n value) (hxs : value.elements = .ok xs) : ∀ x ∈ xs, Fits (n - 1) x := by
  intro x hx
  cases h with
  | null | bool | int | float => cases hxs
  | str s =>
      cases hxs
      obtain ⟨c, -, rfl⟩ := List.mem_map.mp hx
      exact .str _
  | arr h =>
      cases hxs
      exact h x hx
  | obj hkeys h =>
      cases hxs
      obtain ⟨m, -, rfl⟩ := List.mem_map.mp hx
      exact .str _

theorem Fits.memberOf {key : String} {default : Json} (h : Fits n value) (hdefault : Fits (n - 1) default)
    (hfound : Hits.memberOf value key default = .ok found) : Fits (n - 1) found := by
  cases h with
  | null | bool | int | float | str | arr => cases hfound
  | obj hkeys h =>
      cases hfound
      rename_i ms
      cases hget : Table.get? ms key with
      | none => exact hdefault
      | some found => exact h _ (Table.mem_of_get? hget)

theorem Fits.asMember {member : String × Json} (h : Fits n value) (hmember : value.asMember = .ok member) :
    Fits (n - 1) member.2 := by
  unfold Json.asMember at hmember
  obtain ⟨xs, hxs, hmember⟩ := Failure.exists_of_bind_ok hmember
  have hfits := h.elements hxs
  split at hmember
  · cases hmember
  · cases hmember
  · cases hmember
    exact hfits _ (by simp)
  · cases hmember

/-- What holds of the values of two tables holds of those of one set in the other. -/
theorem forall_mem_merge {P : Json → Prop} {t more : Members} (ht : ∀ m ∈ t, P m.2)
    (hmore : ∀ m ∈ more, P m.2) : ∀ m ∈ Table.merge t more, P m.2 :=
  fun m hm => (Table.mem_of_mem_merge hm).elim (ht m) (hmore m)

theorem Fits.paired (h : Fits n value) (hms : value.paired = .ok ms) : ∀ m ∈ ms, Fits (n - 1) m.2 := by
  unfold Json.paired at hms
  split at hms
  · cases hms
    cases h with
    | obj hkeys h => exact h
  · obtain ⟨xs, hxs, hms⟩ := Failure.exists_of_bind_ok hms
    obtain ⟨members, hmembers, hms⟩ := Failure.exists_of_bind_ok hms
    cases hms
    exact forall_mem_merge (List.forall_mem_nil _) (Failure.forall_of_mapM (fun x hx member hmember =>
      (((h.elements hxs x hx).asMember hmember).mono (Nat.sub_le _ _))) hmembers)

end Json

namespace Hits

open Json

variable {n : Nat} {hits : Json} {ids : List Json}

/-- What stands for the documents of an answer. -/
theorem fits_of {answer : Members} (h : ∀ m ∈ answer, Fits (n + 1) m.2) : Fits (n + 1) (of answer) := by
  unfold of
  cases hget : Table.get? answer "hits" with
  | none => exact .obj List.nodup_nil (List.forall_mem_nil _)
  | some hits => exact h _ (Table.mem_of_get? hget)

theorem fits_list {items : Json} (h : Fits (n + 2) hits) (hitems : list hits = .ok items) :
    Fits (n + 1) items :=
  h.memberOf (.arr (List.forall_mem_nil _)) hitems

/-- The numbers of documents. -/
theorem fits_numbers (h : Fits (n + 4) hits) (hids : numbers hits = .ok ids) : ∀ id ∈ ids, Fits (n + 1) id := by
  obtain ⟨items, hitems, hids⟩ := Failure.exists_of_bind_ok hids
  obtain ⟨xs, hxs, hids⟩ := Failure.exists_of_bind_ok hids
  refine Failure.forall_of_mapM (fun hit hhit id hid => ?_) hids
  have hfits : Fits (n + 2) hit := (fits_list h hitems).elements hxs hit hhit
  obtain ⟨name, hname, hid⟩ := Failure.exists_of_bind_ok hid
  have hfits : Fits (n + 1) name := by
    unfold nameOf at hname
    split at hname
    · split at hname
      · rename_i hget
        cases hname
        cases hfits with
        | obj hkeys h => exact h _ (Table.mem_of_get? hget)
      · cases hname
    · cases hname
  unfold numberOf at hid
  split at hid
  · cases hid
    exact .int _
  · cases hid
    exact hfits
  · cases hid
    exact hfits
  · cases hid

theorem forall_mem_addNew {P : Json → Prop} {found values : List Json} (h : ∀ v ∈ found, P v)
    (hvalues : ∀ v ∈ values, P v) : ∀ v ∈ addNew found values, P v := by
  unfold addNew
  induction values generalizing found with
  | nil => exact h
  | cons value rest ih =>
      obtain ⟨hvalue, hrest⟩ := List.forall_mem_cons.mp hvalues
      refine ih (fun v hv => ?_) hrest
      dsimp only at hv
      split at hv
      · exact h v hv
      · rcases List.mem_append.mp hv with hv | hv
        · exact h v hv
        · rwa [List.mem_singleton.mp hv]

/-- The values of a field of documents. -/
theorem fits_fieldValues {field : String} (h : Fits (n + 6) hits) (hids : fieldValues hits field = .ok ids) :
    ∀ id ∈ ids, Fits (n + 1) id := by
  unfold fieldValues at hids
  obtain ⟨items, hitems, hids⟩ := Failure.exists_of_bind_ok hids
  obtain ⟨xs, hxs, hids⟩ := Failure.exists_of_bind_ok hids
  refine Failure.of_foldlM (P := fun found => ∀ id ∈ found, Fits (n + 1) id)
    (fun found hfound hit hhit found' hfound' => ?_) (List.forall_mem_nil _) hids
  have hfits : Fits (n + 4) hit := (fits_list h hitems).elements hxs hit hhit
  have hempty : ∀ {k}, Fits (k + 1) (.obj []) := .obj List.nodup_nil (List.forall_mem_nil _)
  obtain ⟨source, hsource, hfound'⟩ := Failure.exists_of_bind_ok hfound'
  obtain ⟨group, hgroup, hfound'⟩ := Failure.exists_of_bind_ok hfound'
  obtain ⟨values, hvalues, hfound'⟩ := Failure.exists_of_bind_ok hfound'
  cases hfound'
  have hvalues : Fits (n + 1) values :=
    ((hfits.memberOf hempty hsource).memberOf hempty hgroup).memberOf
      (.arr (List.forall_mem_nil _)) hvalues
  refine forall_mem_addNew hfound fun v hv => ?_
  split at hv
  · exact (hvalues.elements rfl v hv).mono (Nat.sub_le _ _)
  · rwa [List.mem_singleton.mp hv]

end Hits

/-- What was remembered of a lookup is read back, if the answer to its search can be stored. -/
theorem Lookup.readBack_valueOf {d : Deployment σ} {l : Lookup} {answer : Except ClientError Json}
    {found : Found} (hfits : ∀ value, answer = .ok value → Json.Fits Json.argumentDepth value)
    (h : l.ofSearch answer = .ok found) :
    d.cache.readBack (d.cache.form (l.valueOf d found)) = .ok (l.valueOf d found) := by
  obtain ⟨⟨ms, errors⟩, hms, h⟩ := Failure.exists_of_bind_ok h
  obtain ⟨⟨count, ids⟩, hids, h⟩ := Failure.exists_of_bind_ok h
  cases h
  have hmembers : ∀ m ∈ ms, Json.Fits 989 m.2 := by
    unfold ClientError.ofSearch at hms
    split at hms
    · rename_i value
      rcases hpaired : value.paired with e | members
      · rw [hpaired] at hms
        cases hms
      · rw [hpaired] at hms
        cases hms
        exact (hfits value rfl).paired hpaired
    · cases hms
      exact List.forall_mem_nil _
    · cases hms
  have hhits := Hits.fits_of hmembers
  have hids : ∀ id ∈ ids, Json.Fits 988 id := by
    unfold ofAnswer at hids
    obtain ⟨total, -, hids⟩ := Failure.exists_of_bind_ok hids
    split at hids
    · obtain ⟨ids, hnumbers, hids⟩ := Failure.exists_of_bind_ok hids
      cases hids
      exact fun id hid => (Hits.fits_numbers hhits hnumbers id hid).mono (by decide)
    · obtain ⟨ids, hvalues, hids⟩ := Failure.exists_of_bind_ok hids
      cases hids
      exact fun id hid => (Hits.fits_fieldValues hhits hvalues id hid).mono (by decide)
  have hnumbers : Json.Fits 989 (l.numbersOf d ⟨count, ids, errors⟩) := by
    unfold numbersOf
    split
    · refine .obj (by simp [Table.keys]) fun m hm => ?_
      simp only [List.mem_cons, List.not_mem_nil, or_false] at hm
      rcases hm with rfl | rfl | rfl <;> exact .str _
    · exact .arr hids
  have hname : "count" ≠ l.nameOf ⟨count, ids, errors⟩ := by
    unfold nameOf
    split <;> decide
  refine Cache.readBack_form fun _ => Json.Fits.isReadable ?_
  refine .obj (by simpa [Table.keys] using hname) fun m hm => ?_
  simp only [List.mem_cons, List.not_mem_nil, or_false] at hm
  rcases hm with rfl | rfl
  · exact .int count
  · exact hnumbers

/-! ## Calls -/

namespace LookupCall

variable {σ : Type} {d : Deployment σ} {call : LookupCall} {l : Lookup}

/-- The field that has one of the numbers that a call comes to. -/
def target : LookupCall → String
  | .plain _ field _ | .chain _ _ field _ => field
  | .concept _ _ _ _ | .inverse _ _ _ => "_id"

/-- A call that resolves a lookup reports on that, below a header of its own. -/
theorem run_of_lookup? (h : call.lookup? d = some l) : ∃ header : Members,
    (∀ key ∈ ["errors", "count"], Table.get? header key = none) ∧ call.run d = (do
      let m ← l.resolve d
      return ⟨d.hasNumber call.target m.numbers, header ++ m.record⟩) := by
  have hheader : ∀ {name title : String} {body : Members}, name ≠ "errors" → name ≠ "count" →
      ∀ key ∈ ["errors", "count"],
        Table.get? [(name, Json.str title), ("query", .obj body)] key = none := by
    intro name title body herrors hcount key hkey
    simp only [List.mem_cons, List.not_mem_nil, or_false] at hkey
    rcases hkey with rfl | rfl
    · simp [Table.get?, herrors]
    · simp [Table.get?, hcount]
  cases call with
  | plain key field params =>
      cases h
      exact ⟨_, hheader (by decide) (by decide), rfl⟩
  | chain property text field params =>
      cases h
      exact ⟨_, hheader (by decide) (by decide), rfl⟩
  | concept c number description params =>
      simp only [lookup?, Option.map_eq_some_iff] at h
      obtain ⟨text, htext, rfl⟩ := h
      cases hquery : description.queryText with
      | error e =>
          rw [hquery] at htext
          cases htext
      | ok text =>
          have hrun : (concept c number description params).run d = d.resolved
              (d.conceptLookup number description.fingerprint params) "_id" "concept_lookup_query"
              (c.hash ++ " → " ++ text) := by
            simp only [run, Deployment.lookupConcept, hquery]
            rfl
          exact ⟨_, hheader (by decide) (by decide), hrun⟩
  | inverse key field params =>
      simp only [lookup?] at h
      split at h
      · cases h
      · rename_i hnothing
        cases h
        have hrun : (inverse key field params).run d = d.resolved (d.inverseLookup key field params) "_id"
            "inverse_lookup_query" key := by
          simp only [run, Deployment.lookupInverse, if_neg hnothing]
        exact ⟨_, hheader (by decide) (by decide), hrun⟩

/-- A call that resolves no lookup answers or fails by itself. -/
theorem own_of_lookup? (h : call.lookup? d = none) :
    ∃ r : Except Failure Resolved, Failure.Own r ∧ call.run d = Effect.ofExcept r := by
  cases call with
  | plain key field params => cases h
  | chain property text field params => cases h
  | concept c number description params =>
      simp only [lookup?, Option.map_eq_none_iff] at h
      cases hquery : description.queryText with
      | error e =>
          refine ⟨.error e, .error (description.own_queryText e hquery), ?_⟩
          simp only [run, Deployment.lookupConcept, hquery]
          rfl
      | ok text =>
          rw [hquery] at h
          cases h
  | inverse key field params =>
      simp only [lookup?] at h
      split at h
      · rename_i hnothing
        have hrun : (inverse key field params).run d = pure ⟨d.hasNumber "_id" (.arr []),
            [("inverse_lookup_query", .str key),
              ("query", .str "Failed with invalid or unmatchable ID")]⟩ := by
          simp only [run, Deployment.lookupInverse, if_pos hnothing]
        exact ⟨.ok _, .ok _, hrun⟩
      · cases h

end LookupCall

end FactIndex
