import FactIndex.Proofs.Compile.ConceptGraph
import FactIndex.Proofs.Lookup.Reference
import FactIndex.Proofs.Lookup.Settled

/-!
# Lookups that are told apart by their names

The document and the key of a lookup are named by digests of values: the body of the search or the
number of a concept, and what else the result depends on. Where the digest tells these values apart
and concepts have numbers of their own, lookups that share a document or a key are for the same query,
or for the same concept.

## Main definitions

* `Deployment.digestedOf`, `Deployment.digestedValues`: the values of which digests are taken.
* `Deployment.FitsWith`: what is asked of recorded lookups in the end.
* `Catalog.NumbersConcepts`: concepts have numbers of their own.
* `Settled.IsNamed`: a lookup is named by digests of some values.
* `Settled.IsNamed.eq_of_shared`: lookups that share a name.
-/

namespace FactIndex

open FactIndex.Digest

variable {σ : Type}

/-! ## What digests are taken of -/

namespace Deployment

variable (d : Deployment σ)

/-- The values of which the digests of a recorded lookup are taken: the body of the search, and what the
remembered result depends on. The first member of the record says what kind of lookup it was. -/
def digestedOf (record : Members) : List Json :=
  let threshold := toString d.settings.subquery.threshold
  match record, Table.get? record "query" with
  | ("lookup_query", _) :: _, some body => [body, Json.ofTexts [structuralHash body, threshold]]
  | ("predefined_lookup_query", .str key) :: _, some body =>
    [body, Json.ofTexts ["pre:" ++ structuralHash body, threshold, key]]
  | _, _ => []

/-- The values of which the digests of the lookup of a concept are taken. -/
def digestedOfConcept (c : Catalog) (hash : String) : List Json :=
  match c.numbers.get? (.entity hash), Concepts.definition? c.concepts hash with
  | some n, some inner => [.int n, Json.ofTexts [plainHash (.int n),
      toString d.settings.subquery.conceptThreshold, inner.fingerprint]]
  | _, _ => []

/-- The values of which the digests of all lookups are taken. -/
def digestedValues (c : Catalog) (records : List Members) : List Json :=
  records.flatMap d.digestedOf ++
    if d.settings.query.conceptLookup then c.concepts.keys.flatMap (d.digestedOfConcept c) else []

/-- None of the recorded lookups has found more than it asks for, and no two values that are different
have the same digest. -/
structure FitsWith (c : Catalog) (records : List Members) : Prop where
  count : ∀ record ∈ records, ∀ n, Table.get? record "count" = some (.int n) →
    n ≤ d.settings.subquery.size
  apart : ∀ v ∈ d.digestedValues c records, ∀ v' ∈ d.digestedValues c records,
    structuralHash v = structuralHash v' → v = v'

variable {d} {c : Catalog} {records : List Members} {record : Members} {v : Json}

theorem mem_digestedValues_append (h : v ∈ d.digestedValues c records) (record : Members) :
    v ∈ d.digestedValues c (records ++ [record]) := by
  unfold digestedValues at h ⊢
  rw [List.flatMap_append, List.append_assoc]
  rcases List.mem_append.mp h with h | h
  · exact List.mem_append_left _ h
  · exact List.mem_append_right _ (List.mem_append_right _ h)

theorem mem_digestedValues_of_record (h : v ∈ d.digestedOf record) :
    v ∈ d.digestedValues c (records ++ [record]) := by
  unfold digestedValues
  rw [List.flatMap_append]
  exact List.mem_append_left _ (List.mem_append_right _ (by simpa using h))

theorem mem_digestedValues_of_concept (hlookup : d.settings.query.conceptLookup = true) {hash : String}
    (h : v ∈ d.digestedOfConcept c hash) : v ∈ d.digestedValues c records := by
  have hmem : hash ∈ c.concepts.keys := by
    unfold digestedOfConcept at h
    split at h
    · rename_i hdefinition
      obtain ⟨stored, hstored⟩ := Concepts.has_of_definition hdefinition
      exact Table.mem_keys_of_get? hstored
    · cases h
  unfold digestedValues
  rw [if_pos hlookup]
  exact List.mem_append_right _ (List.mem_flatMap.mpr ⟨hash, hmem, h⟩)

theorem FitsWith.of_append (h : d.FitsWith c (records ++ [record])) : d.FitsWith c records where
  count r hr := h.count r (List.mem_append_left _ hr)
  apart v hv v' hv' := h.apart v (mem_digestedValues_append hv record) v'
    (mem_digestedValues_append hv' record)

end Deployment

/-! ## Names -/

/-- Concepts with a stored query have numbers of their own, as those have that were added with it. -/
structure Catalog.NumbersConcepts (c : Catalog) : Prop where
  known : ∀ hash ∈ c.concepts.keys, ∃ n, c.numbers.get? (.entity hash) = some n
  distinct : ∀ hash ∈ c.concepts.keys, ∀ hash' ∈ c.concepts.keys, ∀ n,
    c.numbers.get? (.entity hash) = some n → c.numbers.get? (.entity hash') = some n → hash = hash'

/-- Numbers stay as they are. -/
theorem Catalog.NumbersConcepts.of_grows {c c' : Catalog} (h : c.NumbersConcepts)
    (hgrows : c.Grows c') : c'.NumbersConcepts := by
  have hsame : ∀ hash ∈ c.concepts.keys, c'.numbers.get? (.entity hash) =
      c.numbers.get? (.entity hash) := by
    intro hash hmem
    obtain ⟨n, hn⟩ := h.known hash hmem
    rw [hn, hgrows.numbers _ n hn]
  constructor <;> rw [hgrows.concepts]
  · intro hash hmem
    rw [hsame hash hmem]
    exact h.known hash hmem
  · intro hash hmem hash' hmem'
    rw [hsame hash hmem, hsame hash' hmem']
    exact h.distinct hash hmem hash' hmem'

/-- What the digests of lookups are taken of stays the same when more has a number. -/
theorem Deployment.FitsWith.of_grows {d : Deployment σ} {c c' : Catalog} {records : List Members}
    (h : d.FitsWith c records) (hnumbers : c.NumbersConcepts)
    (hgrows : c.Grows c') : d.FitsWith c' records where
  count := h.count
  apart := by
    have hsame : ∀ hash ∈ c.concepts.keys, d.digestedOfConcept c' hash = d.digestedOfConcept c hash := by
      intro hash hmem
      obtain ⟨n, hn⟩ := hnumbers.known hash hmem
      unfold digestedOfConcept
      rw [hgrows.numbers _ n hn, hn, hgrows.concepts]
    have hvalues : d.digestedValues c' records = d.digestedValues c records := by
      unfold digestedValues
      rw [hgrows.concepts, List.flatMap_congr hsame]
    rw [hvalues]
    exact h.apart

namespace Settled

/-- A lookup is named by digests of some values. Its document is called by the body of the search, with a
mark in front, or by the number of a concept, of which the members are given. -/
structure IsNamed (c : Catalog) (values : List Json) (members : String → Int → Prop) (a : Settled) :
    Prop where
  key : Json.ofTexts ([a.lookup.id, toString a.lookup.threshold] ++ a.lookup.dependsOn) ∈ values
  id : (∃ mark, a.lookup.id = mark ++ structuralHash (.obj a.lookup.body) ∧
      Json.obj a.lookup.body ∈ values) ∨
    ∃ hash ∈ c.concepts.keys, ∃ n, c.numbers.get? (.entity hash) = some n ∧ Json.int n ∈ values ∧
      a.lookup.id = structuralHash (.int n) ∧ a.result = members hash

namespace IsNamed

variable {c : Catalog} {values values' : List Json} {members : String → Int → Prop} {a b : Settled}

theorem mono (h : a.IsNamed c values members) (hsub : ∀ v ∈ values, v ∈ values') :
    a.IsNamed c values' members where
  key := hsub _ h.key
  id := h.id.imp (fun ⟨mark, hid, hbody⟩ => ⟨mark, hid, hsub _ hbody⟩)
    fun ⟨hash, hmem, n, hn, hvalue, hid⟩ => ⟨hash, hmem, n, hn, hsub _ hvalue, hid⟩

/-- Lookups that share a document or a key are for the same query or for the same concept. -/
theorem eq_of_shared (hnumbers : c.NumbersConcepts)
    (hapart : ∀ v ∈ values, ∀ v' ∈ values, structuralHash v = structuralHash v' → v = v')
    (ha : a.IsNamed c values members) (hb : b.IsNamed c values members)
    (h : a.lookup.keyText = b.lookup.keyText ∨ a.lookup.id = b.lookup.id) :
    a.lookup.body = b.lookup.body ∨ a.result = b.result := by
  -- A key is made of the id, among others.
  have hid : a.lookup.id = b.lookup.id := by
    refine h.elim (fun hkey => ?_) fun hid => hid
    have hvalues := hapart _ ha.key _ hb.key ((String.append_right_inj _).mp hkey)
    have htexts := (List.map_inj_right fun _ _ => Json.str.inj).mp (Json.arr.inj hvalues)
    exact (List.cons.inj htexts).1
  have hunmarked : ∀ {mark s t}, mark ++ md5 s = md5 t → md5 s = md5 t := fun heq =>
    (append_md5_inj (heq.trans (String.empty_append (s := _)).symm)).2
  rcases ha.id with ⟨mark, haid, habody⟩ | ⟨hash, hmem, n, hn, hvalue, haid, hresult⟩ <;>
    rcases hb.id with ⟨mark', hbid, hbbody⟩ | ⟨hash', hmem', n', hn', hvalue', hbid, hresult'⟩ <;>
    rw [haid, hbid] at hid
  · exact .inl (Json.obj.inj (hapart _ habody _ hbbody (append_md5_inj hid).2))
  · cases hapart _ habody _ hvalue' (hunmarked hid)
  · cases hapart _ hvalue _ hbbody (hunmarked hid.symm).symm
  · cases hapart _ hvalue _ hvalue' hid
    rw [hresult, hresult', hnumbers.distinct hash hmem hash' hmem' n hn hn']
    exact .inr rfl

end IsNamed

end Settled

end FactIndex
