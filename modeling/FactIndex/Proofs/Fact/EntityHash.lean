import FactIndex.Fact.Entity
import FactIndex.Proofs.Decimal.Written

/-!
# Reading the hash of an entity

The parts of a hash stand between number signs. So a hash is read back as the entity that it was taken
of if none of its texts holds a number sign. Otherwise it is read as another entity, or not at all.

## Main definitions

* `Entity.IsPlain`: no text of the entity holds a number sign.
* `Entity.ofHash_hash`: the hash of such an entity is read back, without the sort key.
* `Entity.hash_ne_of_ofHash`: that of any other entity is not.
* `Entity.exists_ofHash_iff`: the entities that some text is read as.
* `Entity.hash_codec`: the hash and its reading as a codec.
-/

namespace FactIndex

open FactIndex.Text

/-! ## Parts of a text -/

namespace Text

variable {sep : Char}

theorem not_mem_of_mem_cutChars {cs part : List Char} (h : part ∈ cutChars sep cs) : sep ∉ part := by
  induction cs generalizing part with
  | nil =>
      obtain rfl : part = [] := by simpa [cutChars] using h
      simp
  | cons c rest ih =>
      unfold cutChars at h
      split at h
      · rcases List.mem_cons.mp h with rfl | h
        · simp
        · exact ih h
      · rename_i hc
        cases hparts : cutChars sep rest with
        | nil => exact absurd hparts (cutChars_ne_nil sep rest)
        | cons front parts =>
            rw [hparts] at h ih
            rcases List.mem_cons.mp h with rfl | h
            · have hfront : sep ∉ front := ih (by simp)
              simp [hfront, Ne.symm hc]
            · exact ih (by simp [h])

theorem not_mem_of_mem_cut {s part : String} (h : part ∈ cut sep s) : sep ∉ part.toList := by
  rcases List.mem_map.mp h with ⟨cs, hcs, rfl⟩
  rw [String.toList_ofList]
  exact not_mem_of_mem_cutChars hcs

end Text

namespace Entity

/-- No text of the entity that its hash is made of holds a number sign. -/
def IsPlain (e : Entity) : Prop :=
  '#' ∉ e.title.toList ∧ '#' ∉ e.interwiki.toList ∧ '#' ∉ e.subobject.toList

instance (e : Entity) : Decidable e.IsPlain := inferInstanceAs (Decidable (_ ∧ _ ∧ _))

theorem toList_hash (e : Entity) : e.hash.toList = e.title.toList ++ '#' ::
    ((toString e.space).toList ++ '#' :: (e.interwiki.toList ++ '#' :: e.subobject.toList)) := by
  simp [hash, String.intercalate_cons_cons, String.intercalate_singleton, String.append_assoc]

theorem not_mem_toString (n : Int) : '#' ∉ (toString n).toList := by
  rw [Decimal.toList_toString]
  exact Decimal.not_mem_intChars (by decide) (by decide) n

/-! ## Reading back -/

/-- A hash has all that makes an entity but the sort key. -/
theorem ofHash_hash {e : Entity} (h : e.IsPlain) : ofHash e.hash = .ok { e with sortkey := none } := by
  obtain ⟨htitle, hinterwiki, hsubobject⟩ := h
  have hcut : cut '#' e.hash = [e.title, toString e.space, e.interwiki, e.subobject] := by
    unfold cut
    rw [toList_hash, cutChars_append htitle, cutChars_append (not_mem_toString _),
      cutChars_append hinterwiki, cutChars_of_not_mem hsubobject]
    simp
  unfold ofHash
  rw [hcut]
  simp only
  rw [Decimal.argumentInt?_toString]
  rfl

/-- What is read from a hash has no number sign in its texts. -/
theorem isPlain_of_ofHash {s : String} {e : Entity} (h : ofHash s = .ok e) : e.IsPlain := by
  unfold ofHash at h
  split at h
  · rename_i title space rest hcut
    split at h
    · cases h
      have hparts : ∀ part ∈ title :: space :: rest, '#' ∉ part.toList := fun part hpart =>
        not_mem_of_mem_cut (hcut ▸ hpart)
      have hrest : ∀ i, '#' ∉ (rest.getD i "").toList := by
        intro i
        rw [List.getD_eq_getElem?_getD]
        cases hi : rest[i]? with
        | none => simp
        | some part => exact hparts part (by simp [List.mem_of_getElem? hi])
      exact ⟨hparts title (by simp), hrest 0, hrest 1⟩
    · cases h
  · cases h

/-- A hash has no sort key, so what is read from one has none. -/
theorem sortkey_of_ofHash {s : String} {e : Entity} (h : ofHash s = .ok e) : e.sortkey = none := by
  unfold ofHash at h
  split at h
  · split at h
    · cases h
      rfl
    · cases h
  · cases h

theorem eq_of_sortkey {e : Entity} (h : e.sortkey = none) : { e with sortkey := none } = e := by
  cases e
  subst h
  rfl

/-- Whatever text an entity was read from, however its number was spelled and whatever stood behind
the fourth part, the hash of the entity is read as the same entity. -/
theorem ofHash_hash_of_ofHash {s : String} {e : Entity} (h : ofHash s = .ok e) :
    ofHash e.hash = .ok e := by
  rw [ofHash_hash (isPlain_of_ofHash h), eq_of_sortkey (sortkey_of_ofHash h)]

/-- The entities that texts are read as. -/
theorem exists_ofHash_iff {e : Entity} : (∃ s, ofHash s = .ok e) ↔ e.IsPlain ∧ e.sortkey = none := by
  constructor
  · rintro ⟨s, h⟩
    exact ⟨isPlain_of_ofHash h, sortkey_of_ofHash h⟩
  · rintro ⟨hplain, hkey⟩
    exact ⟨e.hash, by rw [ofHash_hash hplain, eq_of_sortkey hkey]⟩

/-- Plain entities that differ in more than the sort key have different hashes. -/
theorem hash_eq_hash_iff {e e' : Entity} (h : e.IsPlain) (h' : e'.IsPlain) :
    e.hash = e'.hash ↔ { e with sortkey := none } = { e' with sortkey := none } := by
  constructor
  · intro heq
    have hread := ofHash_hash h
    rw [heq, ofHash_hash h'] at hread
    exact (Except.ok.inj hread).symm
  · intro heq
    have hhash : ∀ e : Entity, e.hash = { e with sortkey := none }.hash := fun _ => rfl
    rw [hhash e, hhash e', heq]

/-- A hash that is not read is a fault of its own. -/
theorem ofHash_ne_unavailable (s text : String) : ofHash s ≠ .error (.unavailable text) := by
  unfold ofHash
  split
  · split <;> simp
  · simp

/-- The number signs of a hash: the three between the parts, and those of the parts. -/
theorem count_hash (e : Entity) : e.hash.toList.count '#' =
    e.title.toList.count '#' + e.interwiki.toList.count '#' + e.subobject.toList.count '#' + 3 := by
  rw [toList_hash]
  simp only [List.count_append, List.count_cons_self,
    List.count_eq_zero_of_not_mem (not_mem_toString e.space)]
  omega

theorem isPlain_iff_count_hash (e : Entity) : e.IsPlain ↔ e.hash.toList.count '#' = 3 := by
  unfold IsPlain
  rw [count_hash, ← List.count_eq_zero, ← List.count_eq_zero, ← List.count_eq_zero]
  omega

/-- Where a text holds a number sign the hash is read as that of another entity, if it is read at
all. -/
theorem hash_ne_of_ofHash {e e' : Entity} (h : ¬ e.IsPlain) (hread : ofHash e.hash = .ok e') :
    e'.hash ≠ e.hash := by
  intro heq
  have hplain := (isPlain_iff_count_hash e').mp (isPlain_of_ofHash hread)
  rw [heq] at hplain
  exact h ((isPlain_iff_count_hash e).mpr hplain)

/-! ## The codec -/

/-- The hash of an entity without number signs is read back as the entity without its sort key, so two
such entities share a hash only if they differ in nothing else. And a text that is read at all, with
parts left out, with parts too many or with another spelling of its number, is read as an entity whose
own hash is read as that entity again. -/
theorem hash_codec :
    (∀ e : Entity, e.IsPlain → ofHash e.hash = .ok { e with sortkey := none }) ∧
    (∀ e e' : Entity, e.IsPlain → e'.IsPlain →
      (e.hash = e'.hash ↔ { e with sortkey := none } = { e' with sortkey := none })) ∧
    (∀ (s : String) (e : Entity), ofHash s = .ok e → ofHash e.hash = .ok e) :=
  ⟨fun _ => ofHash_hash, fun _ _ => hash_eq_hash_iff, fun _ _ => ofHash_hash_of_ofHash⟩

/-- A part of a page of a negative namespace with a sort key, an entity without any text, and a text
with blanks and an underscore in its number and a part too many. -/
theorem hash_codec_part :
    ofHash "A b#-3#de#_x" = .ok { title := "A b", space := -3, interwiki := "de", subobject := "_x" } ∧
    "A b#-3#de#_x" ≠ "#0##" ∧
    ofHash "A b#10#de#" = .ok { title := "A b", space := 10, interwiki := "de" } := by
  let e : Entity :=
    { title := "A b", space := -3, interwiki := "de", subobject := "_x", sortkey := some "z" }
  refine ⟨hash_codec.1 e (by decide), fun heq => ?_,
    hash_codec.2.2 "A b# +1_0 #de##rest" _ rfl⟩
  have hsame := (hash_codec.2.1 e { title := "" } (by decide) (by decide)).mp heq
  exact absurd (congrArg Entity.title hsame) (by decide)

end Entity

end FactIndex
