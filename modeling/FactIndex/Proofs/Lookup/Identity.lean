import FactIndex.Proofs.Json.Canonical
import FactIndex.Proofs.Lookup.Reference
import FactIndex.Proofs.Lookup.Apart
import FactIndex.Proofs.Lookup.Exact

/-!
# What the ids and keys of lookups stand for

The id of a lookup is a digest of the body of its search, of the number of a concept or of the objects from
which a property is followed. The key of its remembered result is a digest of the id, the threshold and what
else the result depends on. So where the digest has no collision, the id of a search stands for the body up
to the order of members. That of a concept stands for the concept, whatever is searched for it.

## Main definitions

* `LookupCall.IsProper`, `LookupCall.SameSubject`: values with distinct keys, and lookups for the same.
* `Lookup.keyedText`: the text of which the digest in a key is taken.
* `LookupCall.subject_eq_iff`: ids of lookups are made of the same if the lookups are for the same.
* `LookupCall.names_eq_iff`: the ids and keys that two lookups share.
* `LookupCall.concept_shared`: a concept that is searched for in two ways.
-/

namespace FactIndex

open FactIndex.Digest

variable {σ : Type}

/-! ## Bodies -/

namespace Json.HasDistinctKeys

variable {v : Json}

theorem single (h : v.HasDistinctKeys) (key : String) : (Json.single key v).HasDistinctKeys :=
  let ⟨_, h⟩ := h
  ⟨_, h.single key⟩

theorem listed (h : v.HasDistinctKeys) : (Json.arr (Clause.listed v)).HasDistinctKeys := by
  obtain ⟨depth, h⟩ := h
  cases h with
  | arr hxs => exact ⟨_, .arr hxs⟩
  | null | bool | int | float | str => exact ⟨1, .arr (List.forall_mem_singleton.mpr (by constructor))⟩
  | obj hkeys hvalues => exact ⟨_, .arr (List.forall_mem_singleton.mpr (.obj hkeys hvalues))⟩

theorem wrapped (h : v.HasDistinctKeys) (constantScore : Bool) :
    (Deployment.wrapped v constantScore).HasDistinctKeys := by
  unfold Deployment.wrapped
  dsimp only
  split
  · exact (((h.listed.single "must").single "bool").single "filter").single "constant_score"
  · exact (h.listed.single "must").single "bool"

/-- The body of a search has no other objects than the query. -/
theorem lookupBody (h : v.HasDistinctKeys) (d : Deployment σ) :
    (Json.obj (d.lookupBody v (.bool false))).HasDistinctKeys := by
  obtain ⟨depth, h⟩ := h
  refine ⟨depth + 1, .obj (by simp [Deployment.lookupBody, Table.keys]) ?_⟩
  exact List.forall_mem_cons.mpr ⟨.bool false, List.forall_mem_cons.mpr ⟨h,
    List.forall_mem_singleton.mpr (.int _)⟩⟩

end Json.HasDistinctKeys

namespace Json.Alike

variable {v w : Json}

theorem listed (h : v.Alike w) : (Json.arr (Clause.listed v)).Alike (.arr (Clause.listed w)) := by
  cases h with
  | arr hlength helements => exact .arr hlength helements
  | null | bool | int | float | str => exact arr_singleton (by constructor)
  | obj hkeys hvalues => exact arr_singleton (.obj hkeys hvalues)

theorem wrapped (h : v.Alike w) (constantScore : Bool) :
    (Deployment.wrapped v constantScore).Alike (Deployment.wrapped w constantScore) := by
  unfold Deployment.wrapped
  dsimp only
  split
  · exact (((h.listed.single "must").single "bool").single "filter").single "constant_score"
  · exact (h.listed.single "must").single "bool"

/-- The body of a search has no other objects than the query. -/
theorem lookupBody (h : v.Alike w) (d : Deployment σ) :
    (Json.obj (d.lookupBody v (.bool false))).Alike (.obj (d.lookupBody w (.bool false))) :=
  (Alike.bool false).obj_cons (h.obj_cons ((Alike.int _).single "size") "query") "_source"

end Json.Alike

namespace LookupCall

/-! ## Subjects -/

/-- What is searched for has no key twice in an object, and a concept has a whole number. -/
def IsProper : LookupCall → Prop
  | .plain _ _ params => params.HasDistinctKeys
  | .chain _ _ _ params => params.HasDistinctKeys
  | .concept _ number _ _ => ∃ n, number = .int n
  | .inverse _ _ params => params.HasDistinctKeys

/-- Lookups of one kind that are for the same: searches whose bodies differ in nothing but the order of
members, concepts with the same number, and objects that differ in nothing but the order of members. -/
def SameSubject (d d' : Deployment σ) : LookupCall → LookupCall → Prop
  | .plain key _ params, .plain key' _ params' =>
    Json.Alike (.obj (d.plainLookup key params).body) (.obj (d'.plainLookup key' params').body)
  | .chain _ _ _ params, .chain _ _ _ params' =>
    Json.Alike (.obj (d.chainLookup params).body) (.obj (d'.chainLookup params').body)
  | .concept _ number _ _, .concept _ number' _ _ => number = number'
  | .inverse _ _ params, .inverse _ _ params' => Json.Alike params params'
  | _, _ => False

variable {d d' : Deployment σ} {c c' : LookupCall} {l l' : Lookup}

theorem head?_structuralText_obj (ms : Members) :
    (structuralText (.obj ms)).toList.head? = some '\x7b' := by
  rw [Json.structuralText_obj]
  simp [Json.bracket]

/-- A number is not written like an object. -/
theorem structuralText_ne_toString (ms : Members) (n : Int) :
    structuralText (.obj ms) ≠ toString n := by
  intro h
  have hmem : '\x7b' ∈ (toString n).toList := List.mem_of_mem_head? (by
    rw [← h, head?_structuralText_obj]
    rfl)
  rw [Decimal.toList_toString] at hmem
  exact Decimal.not_mem_intChars (by decide) (by decide) n hmem

/-- The ids of two lookups are made of the same just if the lookups are for the same. -/
theorem subject_eq_iff (hc : c.IsProper) (hc' : c'.IsProper) :
    c.subject d = c'.subject d' ↔ c.SameSubject d d' c' := by
  have hmark : ∀ {m m' t t' : String}, m ≠ m' → (Subject.mk m t = ⟨m', t'⟩ ↔ False) :=
    fun hne => iff_false_intro fun heq => hne (congrArg Subject.mark heq)
  have htext : ∀ {m t t' : String}, Subject.mk m t = ⟨m, t'⟩ ↔ t = t' :=
    ⟨congrArg Subject.text, fun heq => by rw [heq]⟩
  cases c with
  | plain key field params =>
      cases c' with
      | plain key' field' params' =>
          exact htext.trans (Json.structuralText_eq_iff ((hc.wrapped true).lookupBody d)
            ((Json.HasDistinctKeys.wrapped hc' true).lookupBody d'))
      | chain | concept | inverse => exact hmark (by decide)
  | chain property text field params =>
      cases c' with
      | chain property' text' field' params' =>
          exact htext.trans (Json.structuralText_eq_iff ((hc.wrapped _).lookupBody d)
            ((Json.HasDistinctKeys.wrapped hc' _).lookupBody d'))
      | concept e number description params' =>
          obtain ⟨n, rfl⟩ := hc'
          exact htext.trans (iff_false_intro (structuralText_ne_toString _ n))
      | plain | inverse => exact hmark (by decide)
  | concept e number description params =>
      obtain ⟨n, rfl⟩ := hc
      cases c' with
      | chain property text field params' =>
          exact htext.trans (iff_false_intro (structuralText_ne_toString _ n).symm)
      | concept e' number' description' params' =>
          obtain ⟨n', rfl⟩ := hc'
          refine htext.trans ?_
          show toString n = toString n' ↔ Json.int n = .int n'
          rw [Decimal.toString_injective.eq_iff, Json.int.injEq]
      | plain | inverse => exact hmark (by decide)
  | inverse key field params =>
      cases c' with
      | inverse key' field' params' => exact htext.trans (Json.structuralText_eq_iff hc hc')
      | plain | chain | concept => exact hmark (by decide)

/-- Without a collision, lookups share an id just if they are for the same. -/
theorem id_eq_iff (hl : c.lookup? d = some l) (hl' : c'.lookup? d' = some l') (hc : c.IsProper)
    (hc' : c'.IsProper) (hapart : TellsApart [(c.subject d).text, (c'.subject d').text]) :
    l.id = l'.id ↔ c.SameSubject d d' c' := by
  rw [id_lookup hl, id_lookup hl', ← subject_eq_iff hc hc']
  exact ⟨fun h => Subject.eq_of_id h (hapart _ (by simp) _ (by simp)), congrArg Subject.id⟩

end LookupCall

/-! ## Keys -/

namespace Lookup

/-- The text of which the digest in the key of a lookup is taken. -/
def keyedText (l : Lookup) : String :=
  structuralText (Json.ofTexts ([l.id, toString l.threshold] ++ l.dependsOn))

/-- Without a collision, lookups share a key just if they have the same id, the same threshold, and depend on
the same. -/
theorem key_eq_iff {l l' : Lookup} (hapart : TellsApart [l.keyedText, l'.keyedText]) :
    l.key = l'.key ↔ l.id = l'.id ∧ l.threshold = l'.threshold ∧ l.dependsOn = l'.dependsOn := by
  constructor
  · intro h
    have htext : l.keyedText = l'.keyedText :=
      hapart _ (by simp) _ (by simp) ((String.append_right_inj _).mp (Json.str.inj h))
    have hparts := Json.structuralText_ofTexts_inj htext
    simp only [List.cons_append, List.nil_append, List.cons.injEq] at hparts
    exact ⟨hparts.1, Decimal.toString_injective hparts.2.1, hparts.2.2⟩
  · rintro ⟨hid, hthreshold, hdepends⟩
    unfold key
    rw [hid, hthreshold, hdepends]

end Lookup

namespace LookupCall

/-- Values have the same canonical text just if they differ in nothing but the order of members. So where
the digest has no collision, lookups that share an id are for the same; those that are for the same, and
read the same field of what they find, share the id; and they share a key just if besides the id they have
the threshold and all else that the result depends on in common. -/
theorem names_eq_iff :
    (∀ v w : Json, v.HasDistinctKeys → w.HasDistinctKeys →
      (structuralText v = structuralText w ↔ Json.Alike v w)) ∧
    ∀ (d d' : Deployment σ) (c c' : LookupCall) (l l' : Lookup),
      c.lookup? d = some l → c'.lookup? d' = some l' → c.IsProper → c'.IsProper →
      TellsApart [(c.subject d).text, (c'.subject d').text] → TellsApart [l.keyedText, l'.keyedText] →
      (l.id = l'.id → c.SameSubject d d' c') ∧
      (c.SameSubject d d' c' → l.field = l'.field → l.id = l'.id) ∧
      (l.key = l'.key ↔ l.id = l'.id ∧ l.threshold = l'.threshold ∧ l.dependsOn = l'.dependsOn) := by
  refine ⟨fun v w => Json.structuralText_eq_iff, fun d d' c c' l l' hl hl' hc hc' hids hkeys => ?_⟩
  have hid := id_eq_iff hl hl' hc hc' hids
  exact ⟨hid.mp, fun hsame _ => hid.mpr hsame, Lookup.key_eq_iff hkeys⟩

private def countStore : Deployment Archive := Archive.deployment {}

/-- What has a value within bounds. -/
private def between (bounds : Members) : Json :=
  .single "range" (.single "P:2.numField" (.obj bounds))

private def lookupBetween (bounds : Members) : LookupCall :=
  .plain "Population" "P:1.wpgID" (between bounds)

private def upTo (n : Int) : Members := [("gte", .int 1), ("lt", .int n)]

private theorem isProper_between {bounds : Members} (hkeys : bounds.keys.Nodup)
    (h : ∀ b ∈ bounds, ∃ n, b.2 = .int n) : (lookupBetween bounds).IsProper := by
  have hbounds : Json.Fits 1 (.obj bounds) := .obj hkeys fun b hb => by
    obtain ⟨n, hn⟩ := h b hb
    rw [hn]
    exact .int n
  exact ⟨3, (hbounds.single "P:2.numField").single "range"⟩

private def resultBetween (bounds : Members) : Lookup :=
  countStore.plainLookup "Population" (between bounds)

private theorem alike_upTo : (between (upTo 5)).Alike (between (upTo 5).reverse) := by
  have hbounds : (Json.obj (upTo 5)).Alike (.obj (upTo 5).reverse) := by
    refine Json.alike_of_perm (by decide) (fun m hm => ?_) (List.reverse_perm _).symm
    simp only [upTo, List.mem_cons, List.not_mem_nil, or_false] at hm
    rcases hm with rfl | rfl <;> exact ⟨0, .int _⟩
  exact (hbounds.single "P:2.numField").single "range"

private theorem same_upTo : (lookupBetween (upTo 5)).SameSubject countStore countStore
    (lookupBetween (upTo 5).reverse) := (alike_upTo.wrapped true).lookupBody countStore

/-- What leads to an entity. -/
private def follow (n : Int) : LookupCall := .inverse "Population" "P:2.wpgID" (Json.ofInts [n])

private def followed (n : Int) : Lookup :=
  countStore.inverseLookup "Population" "P:2.wpgID" (Json.ofInts [n])

private theorem follow_apart :
    TellsApart [((follow 5).subject countStore).text, ((follow 6).subject countStore).text] ∧
      TellsApart [(followed 5).keyedText, (followed 6).keyedText] :=
  ⟨.pair fun heq => absurd heq (by decide +kernel), .pair fun heq => absurd heq (by decide +kernel)⟩

/-- Two bounds in either order make lookups with the same id and key, and different objects make different
ones. -/
theorem names_eq_iff_between :
    structuralText (between (upTo 5)) = structuralText (between (upTo 5).reverse) ∧
    (resultBetween (upTo 5)).id = (resultBetween (upTo 5).reverse).id ∧
    (resultBetween (upTo 5)).key = (resultBetween (upTo 5).reverse).key ∧
    (followed 5).id ≠ (followed 6).id ∧ (followed 5).key ≠ (followed 6).key := by
  have hproper : (lookupBetween (upTo 5)).IsProper :=
    isProper_between (by simp [upTo, Table.keys]) (by simp [upTo])
  have hproper' : (lookupBetween (upTo 5).reverse).IsProper :=
    isProper_between (by simp [upTo, Table.keys]) (by simp [upTo])
  have hfollow : ∀ n, (follow n).IsProper := fun n => ⟨1, .arr (List.forall_mem_singleton.mpr (.int n))⟩
  have hsubjects := (subject_eq_iff hproper hproper').mpr same_upTo
  have hid : (resultBetween (upTo 5)).id = (resultBetween (upTo 5).reverse).id :=
    congrArg Subject.id hsubjects
  have hkeyed : (resultBetween (upTo 5)).keyedText = (resultBetween (upTo 5).reverse).keyedText := by
    unfold Lookup.keyedText
    rw [hid]
    rfl
  obtain ⟨htexts, hnames⟩ := @names_eq_iff Archive
  obtain ⟨-, hids, hkeys⟩ := hnames countStore countStore (lookupBetween (upTo 5))
    (lookupBetween (upTo 5).reverse) _ _ rfl rfl hproper hproper'
    (.pair fun _ => congrArg Subject.text hsubjects) (.pair fun _ => hkeyed)
  obtain ⟨hother, -, hotherKey⟩ := hnames countStore countStore (follow 5) (follow 6) (followed 5)
    (followed 6) rfl rfl (hfollow 5) (hfollow 6) follow_apart.1 follow_apart.2
  have hne : (followed 5).id ≠ (followed 6).id := fun heq => by
    have hint : (Json.int 5).Alike (.int 6) := (hother heq).element 0 rfl rfl
    cases hint
  exact ⟨(htexts _ _ hproper hproper').mpr alike_upTo, hids same_upTo rfl, hkeys.mpr ⟨hid, rfl, rfl⟩, hne,
    fun heq => hne (hotherKey.mp heq).1⟩

/-- The entity is in a namespace. -/
private def inSpace (n : Int) : Json := .single "term" (.single "subject.namespace" (.int n))

private def prefetch (n : Int) : LookupCall :=
  .concept { title := "Big_cities", space := Namespace.concept } (.int 15) (.space 0) (inSpace n)

private def prefetched (n : Int) : Lookup :=
  countStore.conceptLookup (.int 15) (Description.space 0).fingerprint (inSpace n)

/-- The id of a concept does not depend on what is searched for it, and neither does the key: two lookups
with different bodies share both, and the digests are taken of the same texts. -/
theorem concept_shared :
    (prefetch 0).lookup? countStore = some (prefetched 0) ∧
    (prefetch 14).lookup? countStore = some (prefetched 14) ∧
    ¬ Json.Alike (.obj (prefetched 0).body) (.obj (prefetched 14).body) ∧
    ((prefetch 0).subject countStore).text = ((prefetch 14).subject countStore).text ∧
    (prefetched 0).keyedText = (prefetched 14).keyedText ∧
    (prefetched 0).id = (prefetched 14).id ∧ (prefetched 0).key = (prefetched 14).key := by
  have htext : (Description.space 0).queryText = .ok "[[+]]" := by decide +kernel
  have hlookup : ∀ n, (prefetch n).lookup? countStore = some (prefetched n) := fun n => by
    show ((Description.space 0).queryText.toOption.map fun _ => prefetched n) = _
    rw [htext]
    rfl
  refine ⟨hlookup 0, hlookup 14, fun halike => ?_, rfl, rfl, rfl, rfl⟩
  have hquery : (Deployment.wrapped (inSpace 0) true).Alike (Deployment.wrapped (inSpace 14) true) :=
    halike.value "query" rfl rfl
  have hmust : (Json.single "must" (.arr [inSpace 0])).Alike (.single "must" (.arr [inSpace 14])) :=
    ((hquery.value "constant_score" rfl rfl).value "filter" rfl rfl).value "bool" rfl rfl
  have hterm : (Json.single "subject.namespace" (.int 0)).Alike (.single "subject.namespace" (.int 14)) :=
    ((hmust.value "must" rfl rfl).element 0 rfl rfl).value "term" rfl rfl
  have hspace : (Json.int 0).Alike (.int 14) := hterm.value "subject.namespace" rfl rfl
  cases hspace

end LookupCall

end FactIndex
