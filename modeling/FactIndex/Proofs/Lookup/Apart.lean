import FactIndex.Proofs.Json.Canonical
import FactIndex.Proofs.Lookup.Memo

/-!
# Chain lookups that the digest tells apart

The document and the key of a lookup of a chain are named by digests: of the body of the search, and of
the id of the document. Where the digest tells the digested texts of two such lookups apart, the
lookups share a document or a key only if they are the same.

## Main definitions

* `Digest.TellsApart`: the digest has no collision among some texts.
* `Deployment.digested`: the texts of which the digests of a lookup of a chain are taken.
* `Deployment.IsLink`: a clause with which a chain is followed.
* `Deployment.chainLookup_eq_of_shared`: lookups that share a document or a key.
-/

namespace FactIndex

open FactIndex.Digest

/-- The digest has no collision among some texts. -/
def Digest.TellsApart (texts : List String) : Prop :=
  ∀ s ∈ texts, ∀ t ∈ texts, md5 s = md5 t → s = t

theorem Digest.TellsApart.mono {texts texts' : List String} (h : TellsApart texts)
    (hsub : ∀ s ∈ texts', s ∈ texts) : TellsApart texts' :=
  fun s hs t ht => h s (hsub s hs) t (hsub t ht)

theorem Digest.TellsApart.pair {s t : String} (h : md5 s = md5 t → s = t) : TellsApart [s, t] := by
  intro u hu v hv heq
  simp only [List.mem_cons, List.not_mem_nil, or_false] at hu hv
  rcases hu with rfl | rfl <;> rcases hv with rfl | rfl
  · rfl
  · exact h heq
  · exact (h heq.symm).symm
  · rfl

/-! ## The clauses of a chain -/

namespace Numbers

/-- A result, with the members of a reference in order. -/
def sorted (index : String) : Numbers → Json
  | .listed ids => Json.ofInts ids
  | .stored id => .obj [("id", .str id), ("index", .str index), ("path", .str "id")]

/-- The canonical text of a result is that of its sorted form. -/
theorem structuralText_toJson (index : String) (numbers : Numbers) :
    structuralText (numbers.toJson index) = Json.Style.unsorted.print (numbers.sorted index) := by
  cases numbers with
  | listed ids => exact Json.structuralText_ofInts ids
  | stored id =>
      have hsorted : ∀ p q r : String, Json.sortByKey [("index", p), ("id", q), ("path", r)] =
          [("id", q), ("index", p), ("path", r)] := fun p q r => by
        simp [Json.sortByKey, List.mergeSort, List.MergeSort.Internal.splitInTwo]
      rw [toJson, Clause.reference, Json.structuralText_obj, sorted, Json.print_unsorted_obj]
      simp only [List.map_cons, List.map_nil]
      rw [hsorted]
      rfl

/-- A condition on a field is told apart from others by what is written of it. -/
theorem structuralText_inj {index field field' : String} {numbers numbers' : Numbers}
    (h : structuralText (.single field (numbers.toJson index)) =
      structuralText (.single field' (numbers'.toJson index))) :
    field = field' ∧ numbers = numbers' := by
  have hprint : ∀ field (numbers : Numbers), structuralText (.single field (numbers.toJson index)) =
      Json.Style.unsorted.print (.single field (numbers.sorted index)) := by
    intro field numbers
    rw [Json.structuralText_single, structuralText_toJson, Json.single, Json.print_unsorted_obj]
    rfl
  have hread : ∀ field (numbers : Numbers),
      Json.IsReadable .unsorted 2 (.single field (numbers.sorted index)) := by
    intro field numbers
    refine .obj (by simp [Table.keys]) fun m hm => ?_
    obtain rfl := List.mem_singleton.mp hm
    cases numbers with
    | listed ids =>
        refine .arr fun x hx => ?_
        obtain ⟨n, -, rfl⟩ := List.mem_map.mp hx
        exact .int n
    | stored id =>
        refine .obj (by simp [Table.keys]) fun m hm => ?_
        simp only [List.mem_cons, List.not_mem_nil, or_false] at hm
        rcases hm with rfl | rfl | rfl <;> exact .str _
  rw [hprint, hprint] at h
  have hsame := Json.unsorted_inj (hread field numbers) (hread field' numbers') h
  simp only [Json.single, Json.obj.injEq, List.cons.injEq, Prod.mk.injEq, and_true] at hsame
  refine ⟨hsame.1, ?_⟩
  have hnumbers := hsame.2
  cases numbers with
  | listed ids =>
      cases numbers' with
      | listed ids' =>
          exact congrArg listed ((List.map_inj_right fun _ _ => Json.int.inj).mp
            (Json.arr.inj hnumbers))
      | stored id' => cases hnumbers
  | stored id =>
      cases numbers' with
      | listed ids' => cases hnumbers
      | stored id' =>
          simp only [sorted, Json.obj.injEq, List.cons.injEq, Prod.mk.injEq, Json.str.injEq, true_and,
            and_true] at hnumbers
          rw [hnumbers]

end Numbers

namespace Deployment

variable {σ : Type} (d : Deployment σ)

/-- The texts of which the digests of a lookup of a chain are taken, which is known by its body. -/
def digested (body : Json) : List String :=
  [structuralText body,
    structuralText (Json.ofTexts [structuralHash body, toString d.settings.subquery.threshold])]

/-- A clause with which a chain is followed: a field has one of the numbers of a result. -/
def IsLink (clause : Json) : Prop :=
  ∃ field numbers, clause = d.hasNumber field (Numbers.toJson (d.indexName IndexType.lookup) numbers)

variable {d}

/-- A clause with which a chain is followed, as it is written. -/
theorem hasNumber_eq (field : String) (numbers : Numbers) :
    let clause := Json.single "terms"
      (.single field (numbers.toJson (d.indexName IndexType.lookup)))
    d.hasNumber field (numbers.toJson (d.indexName IndexType.lookup)) =
      if d.settings.subquery.constantScore then
        .single "constant_score" (.single "filter" clause) else clause := by
  cases numbers <;> rfl

/-- A clause with which a chain is followed is no list. -/
theorem listed_hasNumber (field : String) (numbers : Numbers) :
    Clause.listed (d.hasNumber field (numbers.toJson (d.indexName IndexType.lookup))) =
      [d.hasNumber field (numbers.toJson (d.indexName IndexType.lookup))] := by
  rw [hasNumber_eq]
  split <;> rfl

/-- Clauses with which a chain is followed are told apart by what is written of them. -/
theorem IsLink.eq_of_text {a b : Json} (ha : d.IsLink a) (hb : d.IsLink b)
    (h : structuralText a = structuralText b) : a = b := by
  obtain ⟨field, numbers, rfl⟩ := ha
  obtain ⟨field', numbers', rfl⟩ := hb
  have hsame : field = field' ∧ numbers = numbers' := by
    rw [hasNumber_eq, hasNumber_eq] at h
    split at h
    · exact Numbers.structuralText_inj (Json.structuralText_single_inj
        (Json.structuralText_single_inj (Json.structuralText_single_inj h)))
    · exact Numbers.structuralText_inj (Json.structuralText_single_inj h)
  rw [hsame.1, hsame.2]

/-- A clause with which a chain is followed is not written like a compound one. -/
theorem IsLink.text_ne {a body : Json} (ha : d.IsLink a) :
    structuralText a ≠ structuralText (.single "bool" body) := by
  have hinitial : ∀ {kind : String} {value : Json}, kind ∈ ["terms", "constant_score"] →
      structuralText (.single kind value) ≠ structuralText (.single "bool" body) := by
    intro kind value hkind h
    have hletters := congrArg (fun text => text.toList.take 3) h
    simp only [List.mem_cons, List.not_mem_nil, or_false] at hkind
    rcases hkind with rfl | rfl <;>
      simp [Json.structuralText_single, Json.quote, Json.escape, Json.escapeChar] at hletters
  obtain ⟨field, numbers, rfl⟩ := ha
  rw [hasNumber_eq]
  split <;> exact hinitial (by decide)

/-- What is written of the body of a lookup tells what is written of the clause. -/
theorem text_of_lookupBody {a b : Members} {constantScore : Bool}
    (h : structuralText (.obj (d.lookupBody (wrapped (.obj a) constantScore) (.bool false))) =
      structuralText (.obj (d.lookupBody (wrapped (.obj b) constantScore) (.bool false)))) :
    structuralText (.obj a) = structuralText (.obj b) := by
  have hquery : structuralText (wrapped (.obj a) constantScore) =
      structuralText (wrapped (.obj b) constantScore) := by
    have hordered : ∀ query : Json, (d.lookupBody query (.bool false)).Pairwise
        fun a b => a.1 ≤ b.1 := by
      intro query
      have hkeys : ["_source", "query", "size"].Pairwise fun a b => a ≤ b := by decide
      exact List.pairwise_map.mp hkeys
    rw [Json.structuralText_obj_of_sorted (hordered _),
      Json.structuralText_obj_of_sorted (hordered _)] at h
    simpa [lookupBody, Json.bracket, String.intercalate_cons_cons, String.append_assoc] using h
  have hmust : structuralText (.arr [.obj a]) = structuralText (.arr [.obj b]) := by
    unfold wrapped at hquery
    dsimp only at hquery
    split at hquery
    · exact Json.structuralText_single_inj (Json.structuralText_single_inj
        (Json.structuralText_single_inj (Json.structuralText_single_inj hquery)))
    · exact Json.structuralText_single_inj (Json.structuralText_single_inj hquery)
  simpa [Json.structuralText_arr, Json.bracket] using hmust

/-- Lookups of a chain that share a key or a document are for clauses that are written alike, if the
digest tells apart what it is taken of. -/
theorem text_of_shared {a b : Members} {texts : List String} (hapart : Digest.TellsApart texts)
    (ha : ∀ text ∈ d.digested (.obj (d.chainLookup (.obj a)).body), text ∈ texts)
    (hb : ∀ text ∈ d.digested (.obj (d.chainLookup (.obj b)).body), text ∈ texts)
    (h : (d.chainLookup (.obj a)).keyText = (d.chainLookup (.obj b)).keyText ∨
      (d.chainLookup (.obj a)).id = (d.chainLookup (.obj b)).id) :
    structuralText (.obj a) = structuralText (.obj b) := by
  have hid : (d.chainLookup (.obj a)).id = (d.chainLookup (.obj b)).id := by
    refine h.elim (fun hkey => ?_) id
    have hhash := (String.append_right_inj _).mp hkey
    have htexts := hapart _ (ha _ (List.mem_cons_of_mem _ (List.mem_singleton_self _))) _
      (hb _ (List.mem_cons_of_mem _ (List.mem_singleton_self _))) hhash
    exact (List.cons.inj (Json.structuralText_ofTexts_inj htexts)).1
  exact text_of_lookupBody (hapart _ (ha _ List.mem_cons_self) _ (hb _ List.mem_cons_self) hid)

/-- A clause that a lookup of a chain is for: that at the end, which is compound, or one with which the
chain is followed. -/
def IsMember (d : Deployment σ) (last : Json) (clause : Json) : Prop :=
  clause = last ∨ d.IsLink clause

/-- Lookups of a chain that share a key or a document are the same. -/
theorem chainLookup_eq_of_shared {last body a b : Json} {texts : List String}
    (hlast : last = .single "bool" body) (hapart : Digest.TellsApart texts)
    (ha : d.IsMember last a) (hb : d.IsMember last b)
    (htexts : ∀ text ∈ d.digested (.obj (d.chainLookup a).body), text ∈ texts)
    (htexts' : ∀ text ∈ d.digested (.obj (d.chainLookup b).body), text ∈ texts)
    (h : (d.chainLookup a).keyText = (d.chainLookup b).keyText ∨
      (d.chainLookup a).id = (d.chainLookup b).id) : d.chainLookup a = d.chainLookup b := by
  have hobject : ∀ {c}, d.IsMember last c → ∃ ms, c = .obj ms := by
    rintro c (rfl | ⟨field, numbers, rfl⟩)
    · exact ⟨_, hlast⟩
    · rw [hasNumber_eq]
      split <;> exact ⟨_, rfl⟩
  obtain ⟨ms, rfl⟩ := hobject ha
  obtain ⟨ms', rfl⟩ := hobject hb
  have htext := text_of_shared hapart htexts htexts' h
  have hsame : Json.obj ms = .obj ms' := by
    rcases ha with ha | ha <;> rcases hb with hb | hb
    · rw [ha, hb]
    · rw [ha, hlast] at htext
      exact absurd htext.symm hb.text_ne
    · rw [hb, hlast] at htext
      exact absurd htext ha.text_ne
    · exact ha.eq_of_text hb htext
  rw [hsame]

end Deployment

end FactIndex
