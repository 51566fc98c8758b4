import FactIndex.Index.Body
import FactIndex.Proofs.Json.Canonical

/-!
# Settings with some of them overridden

At every path of keys the merged value is the one that overrides, if it is no object or if there was no
object before, and the old one where nothing overrides. Where both are objects they are merged in turn.
Overriding a second time changes nothing.

## Main definitions

* `Json.at?`, `Json.IsObject`: the value at a path of keys, and values that have keys.
* `Json.IsSilent`: a value that says nothing about a path.
* `Body.at?_merge_of_some`, `Body.at?_merge_of_isSilent`: the merged value at a path.
* `Body.merge_exact`: the laws together.
-/

namespace FactIndex

/-! ## Paths -/

namespace Json

/-- The value at a path of keys. -/
def at? : Json → List String → Option Json
  | v, [] => some v
  | v, key :: path => (v.get? key).bind fun inner => inner.at? path

/-- A value that has keys. -/
def IsObject (v : Json) : Prop := ∃ ms, v = .obj ms

/-- A value that says nothing about a path: it has no value there, and nothing but objects on the way. -/
def IsSilent (v : Json) (path : List String) : Prop :=
  v.at? path = none ∧ ∀ front, front <+: path → ∀ w, v.at? front = some w → w.IsObject

variable {v w : Json} {ms : Members} {key : String} {path : List String}

theorem at?_cons (v : Json) (key : String) (path : List String) :
    v.at? (key :: path) = (v.get? key).bind fun inner => inner.at? path := rfl

theorem isObject_obj (ms : Members) : (Json.obj ms).IsObject := ⟨ms, rfl⟩

/-- Only objects have a value at a path that leads on. -/
theorem at?_cons_of_not_isObject (h : ¬ v.IsObject) (key : String) (path : List String) :
    v.at? (key :: path) = none := by
  cases v with
  | obj ms => exact absurd (isObject_obj ms) h
  | null | bool | int | float | str | arr => rfl

/-- What is silent about a path is so under the first key about the rest of it, if it has the key at all. -/
theorem isSilent_cons : (Json.obj ms).IsSilent (key :: path) ↔
    ∀ w, Table.get? ms key = some w → w.IsSilent path := by
  have hat (w : Json) (hw : Table.get? ms key = some w) (rest : List String) :
      (Json.obj ms).at? (key :: rest) = w.at? rest := by
    have hmember : (Json.obj ms).get? key = some w := hw
    rw [at?_cons, hmember, Option.bind_some]
  constructor
  · intro h w hw
    refine ⟨(hat w hw path).symm.trans h.1, fun front hfront u hu => ?_⟩
    exact h.2 (key :: front) ((List.prefix_cons_inj key).mpr hfront) u ((hat w hw front).trans hu)
  · intro h
    constructor
    · cases hw : Table.get? ms key with
      | none =>
          have hmember : (Json.obj ms).get? key = none := hw
          rw [at?_cons, hmember, Option.bind_none]
      | some w => exact (hat w hw path).trans (h w hw).1
    · rintro (_ | ⟨k, front⟩) hfront u hu
      · cases hu
        exact isObject_obj ms
      · obtain ⟨rfl, hrest⟩ := List.cons_prefix_cons.mp hfront
        obtain ⟨w, hw, -⟩ := Option.bind_eq_some_iff.mp hu
        exact (h w hw).2 front hrest u ((hat w hw front).symm.trans hu)

theorem HasDistinctKeys.nodup (h : (Json.obj ms).HasDistinctKeys) : ms.keys.Nodup := by
  obtain ⟨depth, h⟩ := h
  cases h with
  | obj hkeys _ => exact hkeys

theorem HasDistinctKeys.member (h : (Json.obj ms).HasDistinctKeys) (hv : ms.get? key = some v) :
    v.HasDistinctKeys := by
  obtain ⟨depth, h⟩ := h
  cases h with
  | obj _ h => exact ⟨_, h _ (Table.mem_of_get? hv)⟩

end Json

/-- To set a value that is there already changes nothing. -/
theorem Table.put_of_get? {κ α : Type} [DecidableEq κ] {t : Table κ α} {key : κ} {value : α}
    (h : t.get? key = some value) : t.put key value = t := by
  induction t with
  | nil => cases h
  | cons entry rest ih =>
      obtain ⟨k, v⟩ := entry
      rw [Table.get?_cons] at h
      rw [Table.put]
      split at h
      · rename_i hk
        rw [if_pos hk, Option.some.inj h]
      · rename_i hk
        rw [if_neg hk, ih h]

namespace Body

open Json

variable {base overrides b o : Members} {old v : Json} {key : String} {path : List String}

/-! ## One key -/

theorem override_obj (b o : Members) : override (some (.obj b)) (.obj o) = .obj (merge b o) := by
  rw [override]

/-- Objects are merged with objects, and everything else takes the place of what has been there. -/
theorem override_cases (old : Option Json) (v : Json) :
    (∃ b o, old = some (.obj b) ∧ v = .obj o ∧ override old v = .obj (merge b o)) ∨
      (v.IsObject → ∀ b, old ≠ some (.obj b)) ∧ override old v = v := by
  by_cases hboth : v.IsObject ∧ ∃ b, old = some (.obj b)
  · obtain ⟨⟨o, rfl⟩, b, rfl⟩ := hboth
    exact .inl ⟨b, o, rfl, rfl, override_obj b o⟩
  · have hnot : v.IsObject → ∀ b, old ≠ some (.obj b) := fun hv b hb => hboth ⟨hv, b, hb⟩
    refine .inr ⟨hnot, ?_⟩
    unfold override
    split
    · rename_i b o
      exact absurd rfl (hnot (isObject_obj o) b)
    · rfl

theorem override_of_not {old : Option Json} (h : v.IsObject → ∀ b, old ≠ some (.obj b)) :
    override old v = v := by
  rcases override_cases old v with ⟨b, o, hb, rfl, -⟩ | ⟨-, hsame⟩
  · exact absurd hb (h (isObject_obj o) b)
  · exact hsame

/-- By induction on the overrides, each of which is about a key of its own. -/
theorem get?_merge (h : overrides.keys.Nodup) (base : Members) (key : String) :
    (merge base overrides).get? key =
      match overrides.get? key with
      | some v => some (override (base.get? key) v)
      | none => base.get? key := by
  induction overrides generalizing base with
  | nil => rfl
  | cons entry rest ih =>
      obtain ⟨k, v⟩ := entry
      obtain ⟨hnew, hrest⟩ := List.nodup_cons.mp h
      rw [merge, ih hrest, Table.get?_cons]
      by_cases hk : k = key
      · subst hk
        rw [Table.get?_eq_none_iff.mpr hnew, if_pos rfl]
        exact Table.get?_put_self _ _ _
      · rw [if_neg hk, Table.get?_put_of_ne _ _ hk]

theorem get?_merge_of_some (h : overrides.keys.Nodup) (hv : overrides.get? key = some v) :
    (merge base overrides).get? key = some (override (base.get? key) v) := by
  rw [get?_merge h, hv]

theorem get?_merge_of_none (h : overrides.keys.Nodup) (hv : overrides.get? key = none) :
    (merge base overrides).get? key = base.get? key := by
  rw [get?_merge h, hv]

/-! ## Paths of keys -/

/-- Below a value that is no object there is nothing. -/
theorem bind_at?_of_not {old : Option Json} (h : ∀ b, old ≠ some (.obj b)) (key : String)
    (path : List String) : (old.bind fun inner => inner.at? (key :: path)) = none := by
  cases old with
  | none => rfl
  | some w =>
      refine at?_cons_of_not_isObject ?_ key path
      rintro ⟨b, rfl⟩
      exact h b rfl

/-- What stands at a path in the overrides overrides what has been there. -/
theorem at?_merge_of_some (h : (Json.obj overrides).HasDistinctKeys)
    (hv : (Json.obj overrides).at? path = some v) :
    (Json.obj (merge base overrides)).at? path = some (override ((Json.obj base).at? path) v) := by
  induction path generalizing base overrides with
  | nil =>
      cases hv
      exact congrArg some (override_obj base overrides).symm
  | cons key path ih =>
      obtain ⟨inner, hinner, hv⟩ := Option.bind_eq_some_iff.mp hv
      have hmerged : (Json.obj (merge base overrides)).get? key = _ := get?_merge_of_some h.nodup hinner
      have hbase : (Json.obj base).at? (key :: path) = (base.get? key).bind fun w => w.at? path := rfl
      rw [at?_cons, hmerged, hbase, Option.bind_some]
      rcases override_cases (base.get? key) inner with ⟨b, o, hb, rfl, hboth⟩ | ⟨hnot, hsame⟩
      · rw [hboth, hb]
        exact ih (h.member hinner) hv
      · rw [hsame, hv]
        cases path with
        | nil =>
            cases hv
            have hend : ((base.get? key).bind fun w => w.at? []) = base.get? key := by
              cases base.get? key <;> rfl
            rw [hend, hsame]
        | cons next path =>
            have hobject : inner.IsObject := by
              refine Classical.byContradiction fun hno => ?_
              rw [at?_cons_of_not_isObject hno] at hv
              cases hv
            have hnew : override none v = v := override_of_not fun _ _ => nofun
            rw [bind_at?_of_not (hnot hobject), hnew]

/-- What the overrides say nothing about stays. -/
theorem at?_merge_of_isSilent (h : (Json.obj overrides).HasDistinctKeys)
    (hsilent : (Json.obj overrides).IsSilent path) :
    (Json.obj (merge base overrides)).at? path = (Json.obj base).at? path := by
  induction path generalizing base overrides with
  | nil => cases hsilent.1
  | cons key path ih =>
      have hbase : (Json.obj base).at? (key :: path) = (base.get? key).bind fun w => w.at? path := rfl
      cases hinner : overrides.get? key with
      | none =>
          have hmerged : (Json.obj (merge base overrides)).get? key = _ := get?_merge_of_none h.nodup hinner
          rw [at?_cons, hmerged, hbase]
      | some inner =>
          have hmerged : (Json.obj (merge base overrides)).get? key = _ := get?_merge_of_some h.nodup hinner
          have hrest : inner.IsSilent path := isSilent_cons.mp hsilent inner hinner
          rw [at?_cons, hmerged, hbase, Option.bind_some]
          rcases override_cases (base.get? key) inner with ⟨b, o, hb, rfl, hboth⟩ | ⟨hnot, hsame⟩
          · rw [hboth, hb]
            exact ih (h.member hinner) hrest
          · rw [hsame, hrest.1]
            cases path with
            | nil => cases hrest.1
            | cons next path =>
                have hobject : inner.IsObject := hrest.2 [] List.nil_prefix inner rfl
                exact (bind_at?_of_not (hnot hobject) next path).symm

/-! ## Overriding again -/

/-- Overrides that are there already change nothing. -/
theorem merge_eq_self (h : ∀ entry ∈ overrides, ∃ old, base.get? entry.1 = some old ∧
    override (some old) entry.2 = old) : merge base overrides = base := by
  induction overrides with
  | nil => rfl
  | cons entry rest ih =>
      obtain ⟨old, hold, hsame⟩ := h entry List.mem_cons_self
      rw [merge, hold, hsame, Table.put_of_get? hold]
      exact ih fun other hother => h other (List.mem_cons_of_mem _ hother)

theorem override_self (h : v.HasDistinctKeys) : override (some v) v = v := by
  obtain ⟨depth, h⟩ := h
  induction h with
  | null | bool | int | float | str | arr => rfl
  | obj hkeys _ ih =>
      rw [override_obj, merge_eq_self fun entry hentry => ⟨_, Table.get?_of_mem hkeys hentry, ih entry hentry⟩]

/-- By induction on the value that overrides, key by key where it is merged. -/
theorem override_override (h : v.HasDistinctKeys) (old : Option Json) :
    override (some (override old v)) v = override old v := by
  obtain ⟨depth, h⟩ := h
  induction h generalizing old with
  | null | bool | int | float | str | arr => rw [override_of_not, override_of_not] <;> rintro ⟨_, ⟨⟩⟩
  | @obj depth o hkeys hfits ih =>
      rcases override_cases old (.obj o) with ⟨b, o, hb, ⟨⟩, hboth⟩ | ⟨-, hsame⟩
      · rw [hboth, override_obj, merge_eq_self fun entry hentry => ⟨_, ?_, ih entry hentry (Table.get? b entry.1)⟩]
        exact get?_merge_of_some hkeys (Table.get?_of_mem hkeys hentry)
      · rw [hsame, override_self ⟨_, .obj hkeys hfits⟩]

theorem merge_merge (h : (Json.obj overrides).HasDistinctKeys) (base : Members) :
    merge (merge base overrides) overrides = merge base overrides := by
  have hsame := override_override h (some (.obj base))
  rw [override_obj, override_obj] at hsame
  exact Json.obj.inj hsame

/-- The merged value holds at every path what overrides it, if that is no object or there is no object to
merge it with, and merges two objects. Where nothing overrides it, it holds what the base does. Overriding
again changes nothing. -/
theorem merge_exact (base : Members) {overrides : Members} (h : (Json.obj overrides).HasDistinctKeys) :
    (∀ path v, (Json.obj overrides).at? path = some v →
      (¬ v.IsObject ∨ ∀ b, (Json.obj base).at? path ≠ some (.obj b)) →
        (Json.obj (merge base overrides)).at? path = some v) ∧
    (∀ path b o, (Json.obj base).at? path = some (.obj b) →
      (Json.obj overrides).at? path = some (.obj o) →
        (Json.obj (merge base overrides)).at? path = some (.obj (merge b o))) ∧
    (∀ path, (Json.obj overrides).IsSilent path →
      (Json.obj (merge base overrides)).at? path = (Json.obj base).at? path) ∧
    merge (merge base overrides) overrides = merge base overrides := by
  refine ⟨fun path v hv hnot => ?_, fun path b o hb ho => ?_, fun path => at?_merge_of_isSilent h,
    merge_merge h base⟩
  · rw [at?_merge_of_some h hv, override_of_not fun hobject => hnot.resolve_left (not_not_intro hobject)]
  · rw [at?_merge_of_some h ho, hb, override_obj]

private def moreSettings : Members :=
  [("number_of_shards", .int 2), ("analysis", .single "normalizer" (.single "lowercase_normalizer" .null))]

/-- A setting is added, an object is overridden as a whole, and another one next to it is kept. -/
theorem merge_exact_settings :
    let merged := Json.obj (merge dataSettings moreSettings)
    (Json.obj moreSettings).HasDistinctKeys ∧
      merged.at? ["number_of_shards"] = some (.int 2) ∧
      merged.at? ["analysis", "normalizer", "lowercase_normalizer"] = some .null ∧
      merged.at? ["analysis", "normalizer", "sort_normalizer", "type"] = some (.str "custom") ∧
      merge (merge dataSettings moreSettings) moreSettings = merge dataSettings moreSettings := by
  have hdistinct : (Json.obj moreSettings).HasDistinctKeys := by
    refine ⟨4, .obj (by simp [moreSettings, Table.keys]) fun entry hentry => ?_⟩
    rcases List.mem_pair.mp hentry with rfl | rfl
    · exact .int 2
    · exact .single _ (.single _ .null)
  obtain ⟨hoverrides, -, hsilent, hagain⟩ := merge_exact dataSettings hdistinct
  have hquiet : (Json.obj moreSettings).IsSilent ["analysis", "normalizer", "sort_normalizer", "type"] := by
    refine isSilent_cons.mpr fun _ hw => ?_
    cases hw
    refine isSilent_cons.mpr fun _ hw => ?_
    cases hw
    refine isSilent_cons.mpr fun _ hw => ?_
    cases hw
  have hnumber : ∀ ms, (Json.obj dataSettings).at? ["number_of_shards"] ≠ some (.obj ms) := by
    rintro _ ⟨⟩
  have hnull : ¬ Json.null.IsObject := by rintro ⟨_, ⟨⟩⟩
  exact ⟨hdistinct, hoverrides _ _ rfl (.inr hnumber), hoverrides _ _ rfl (.inl hnull),
    hsilent _ hquiet, hagain⟩

end Body

end FactIndex
