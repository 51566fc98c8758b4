/-!
# Tables

A table relates keys to values and keeps the order in which the keys came.

## Main definitions

* `Table.get?`, `Table.put`, `Table.erase`: looking up, setting and removing the value of a key.
* `Table.merge`: sets all values of one table in another.
-/

namespace FactIndex

/-- Keys with their values, in order. -/
abbrev Table (κ α : Type) := List (κ × α)

namespace Table

variable {κ α : Type} [DecidableEq κ]

/-- The value of the first entry with the key. -/
def get? : Table κ α → κ → Option α
  | [], _ => none
  | (k, v) :: rest, key => if k = key then some v else get? rest key

/-- Sets the value of a key. A known key keeps its position, a new one goes to the end. -/
def put : Table κ α → κ → α → Table κ α
  | [], key, value => [(key, value)]
  | (k, v) :: rest, key, value =>
    if k = key then (k, value) :: rest else (k, v) :: put rest key value

/-- Whether the key has a value. -/
def has (t : Table κ α) (key : κ) : Bool := (get? t key).isSome

/-- The table without the key. -/
def erase (t : Table κ α) (key : κ) : Table κ α := t.filter fun entry => entry.1 ≠ key

/-- Sets every value of the second table in the first. -/
def merge (t more : Table κ α) : Table κ α :=
  more.foldl (fun acc entry => put acc entry.1 entry.2) t

/-- The keys, in order. -/
def keys (t : Table κ α) : List κ := t.map (·.1)

/-- The values, in order. -/
def values (t : Table κ α) : List α := t.map (·.2)

@[simp] theorem get?_nil (key : κ) : get? ([] : Table κ α) key = none := rfl

theorem get?_cons (k key : κ) (v : α) (t : Table κ α) :
    get? ((k, v) :: t) key = if k = key then some v else get? t key := rfl

theorem get?_append {t more : Table κ α} {key : κ} (h : get? t key = none) :
    get? (t ++ more) key = get? more key := by
  induction t with
  | nil => rfl
  | cons entry rest ih =>
    obtain ⟨k, v⟩ := entry
    rw [get?_cons] at h
    split at h
    · cases h
    · rename_i hne
      rw [List.cons_append, get?_cons, if_neg hne, ih h]

theorem get?_put_self (t : Table κ α) (key : κ) (value : α) :
    get? (put t key value) key = some value := by
  induction t with
  | nil => simp [put, get?]
  | cons entry rest ih =>
    obtain ⟨k, v⟩ := entry
    by_cases h : k = key <;> simp [put, get?, h, ih]

theorem get?_put_of_ne (t : Table κ α) {key other : κ} (value : α) (h : key ≠ other) :
    get? (put t key value) other = get? t other := by
  induction t with
  | nil => simp [put, get?, h]
  | cons entry rest ih =>
    obtain ⟨k, v⟩ := entry
    by_cases hk : k = key
    · subst hk; simp [put, get?, h]
    · simp only [put, if_neg hk, get?_cons, ih]

theorem get?_put (t : Table κ α) (key other : κ) (value : α) :
    get? (put t key value) other = if key = other then some value else get? t other := by
  split
  · rename_i h
    rw [← h, get?_put_self]
  · rename_i h
    exact get?_put_of_ne t value h

theorem get?_erase_self (t : Table κ α) (key : κ) : get? (erase t key) key = none := by
  induction t with
  | nil => rfl
  | cons entry rest ih =>
    obtain ⟨k, v⟩ := entry
    by_cases h : k = key
    · simpa [erase, List.filter_cons, h] using ih
    · simpa [erase, List.filter_cons, h, get?] using ih

theorem get?_erase_of_ne (t : Table κ α) {key other : κ} (h : key ≠ other) :
    get? (erase t key) other = get? t other := by
  induction t with
  | nil => rfl
  | cons entry rest ih =>
    obtain ⟨k, v⟩ := entry
    by_cases hk : k = key
    · subst hk; simpa [erase, List.filter_cons, get?, h] using ih
    · simp only [erase, ne_eq, hk, not_false_eq_true, decide_true, List.filter_cons_of_pos,
        get?_cons] at ih ⊢
      rw [ih]

theorem put_of_not_mem {t : Table κ α} {key : κ} (h : key ∉ t.keys) (value : α) :
    t.put key value = t ++ [(key, value)] := by
  induction t with
  | nil => rfl
  | cons entry rest ih =>
    have hne : entry.1 ≠ key := fun heq => h (by simp [keys, heq])
    have hrest : key ∉ Table.keys rest := fun hmem => h (List.mem_cons_of_mem _ hmem)
    rw [put, if_neg hne, ih hrest]
    rfl

theorem get?_eq_none_iff {t : Table κ α} {key : κ} : t.get? key = none ↔ key ∉ t.keys := by
  induction t with
  | nil => simp [keys]
  | cons entry rest ih =>
    obtain ⟨k, v⟩ := entry
    by_cases h : k = key
    · simp [get?_cons, keys, h]
    · rw [get?_cons, if_neg h, ih]
      simp [keys, Ne.symm h]

theorem mem_keys_of_get? {t : Table κ α} {key : κ} {value : α} (h : t.get? key = some value) :
    key ∈ t.keys := by
  refine Decidable.not_not.mp fun hmem => ?_
  rw [get?_eq_none_iff.mpr hmem] at h
  cases h

theorem mem_of_get? {t : Table κ α} {key : κ} {value : α} (h : t.get? key = some value) :
    (key, value) ∈ t := by
  induction t with
  | nil => cases h
  | cons entry rest ih =>
    obtain ⟨k, v⟩ := entry
    rw [get?_cons] at h
    split at h
    · rename_i hk
      cases h
      rw [hk]
      exact List.mem_cons_self
    · exact List.mem_cons_of_mem _ (ih h)

theorem get?_of_mem {t : Table κ α} (h : t.keys.Nodup) {entry : κ × α} (hmem : entry ∈ t) :
    t.get? entry.1 = some entry.2 := by
  induction t with
  | nil => cases hmem
  | cons first rest ih =>
    obtain ⟨hnew, hrest⟩ := List.nodup_cons.mp h
    rcases List.mem_cons.mp hmem with rfl | hmem
    · exact if_pos rfl
    · have hne : first.1 ≠ entry.1 := fun heq => hnew (List.mem_map.mpr ⟨entry, hmem, heq.symm⟩)
      exact (if_neg hne).trans (ih hrest hmem)

theorem keys_put_of_mem {t : Table κ α} {key : κ} (h : key ∈ t.keys) (value : α) :
    (t.put key value).keys = t.keys := by
  induction t with
  | nil => simp [keys] at h
  | cons entry rest ih =>
    obtain ⟨k, v⟩ := entry
    by_cases hk : k = key
    · simp [put, keys, hk]
    · have hrest : key ∈ Table.keys rest := (List.mem_cons.mp h).resolve_left (Ne.symm hk)
      rw [put, if_neg hk]
      exact congrArg (k :: ·) (ih hrest)

/-- Setting a value keeps the keys apart. -/
theorem nodup_keys_put {t : Table κ α} (h : t.keys.Nodup) (key : κ) (value : α) :
    (t.put key value).keys.Nodup := by
  by_cases hmem : key ∈ t.keys
  · rwa [keys_put_of_mem hmem]
  · have hkeys : (t.put key value).keys = t.keys ++ [key] := by
      rw [put_of_not_mem hmem]
      simp [keys]
    rw [hkeys, List.nodup_append]
    refine ⟨h, by simp, fun k hk other hother heq => hmem ?_⟩
    rwa [← List.mem_singleton.mp hother, ← heq]

/-- A table has what was put into it and what was there before. -/
theorem mem_of_mem_put {t : Table κ α} {key : κ} {value : α} {entry : κ × α}
    (h : entry ∈ t.put key value) : entry = (key, value) ∨ entry ∈ t := by
  induction t with
  | nil => exact .inl (List.mem_singleton.mp h)
  | cons first rest ih =>
      rw [put] at h
      split at h
      · rename_i hkey
        rcases List.mem_cons.mp h with rfl | h
        · exact .inl (by rw [hkey])
        · exact .inr (List.mem_cons_of_mem _ h)
      · rcases List.mem_cons.mp h with rfl | h
        · exact .inr List.mem_cons_self
        · exact (ih h).imp_right (List.mem_cons_of_mem _)

theorem mem_keys_put {t : Table κ α} {key other : κ} {value : α} :
    other ∈ (t.put key value).keys ↔ other = key ∨ other ∈ t.keys := by
  by_cases h : key ∈ t.keys
  · rw [keys_put_of_mem h]
    exact ⟨.inr, fun h' => h'.elim (fun heq => heq ▸ h) id⟩
  · rw [put_of_not_mem h]
    simp [keys, or_comm]

theorem keys_erase (t : Table κ α) (key : κ) : (t.erase key).keys = t.keys.filter (· ≠ key) := by
  unfold keys erase
  rw [List.filter_map]
  rfl

theorem nodup_keys_erase {t : Table κ α} (h : t.keys.Nodup) (key : κ) : (t.erase key).keys.Nodup := by
  rw [keys_erase]
  exact h.filter _

theorem has_iff {t : Table κ α} {key : κ} : t.has key = true ↔ key ∈ t.keys := by
  rw [has, Option.isSome_iff_ne_none, Ne, get?_eq_none_iff, Decidable.not_not]

/-- Where no key comes twice, the entries are the keys with their values. -/
theorem get?_eq_some_iff {t : Table κ α} (h : t.keys.Nodup) {key : κ} {value : α} :
    t.get? key = some value ↔ (key, value) ∈ t :=
  ⟨mem_of_get?, get?_of_mem h⟩

theorem get?_map {β : Type} (f : α → β) (t : Table κ α) (key : κ) :
    get? (t.map fun entry => (entry.1, f entry.2)) key = (t.get? key).map f := by
  induction t with
  | nil => rfl
  | cons entry rest ih =>
      obtain ⟨k, v⟩ := entry
      rw [List.map_cons, get?_cons, get?_cons, ih]
      split <;> rfl

omit [DecidableEq κ] in
theorem keys_map {β : Type} (f : α → β) (t : Table κ α) :
    keys (t.map fun entry => (entry.1, f entry.2)) = t.keys := by
  rw [keys, List.map_map]
  rfl

/-- A table into which another one was merged has nothing but the entries of the two. -/
theorem mem_of_mem_merge {t more : Table κ α} {entry : κ × α} (h : entry ∈ t.merge more) :
    entry ∈ t ∨ entry ∈ more := by
  induction more generalizing t with
  | nil => exact .inl h
  | cons first rest ih =>
      rcases ih h with hput | hrest
      · exact (mem_of_mem_put hput).symm.imp_right fun heq => List.mem_cons.mpr (.inl heq)
      · exact .inr (List.mem_cons_of_mem _ hrest)

/-- Entries with keys of their own are put one after the other. -/
theorem merge_of_nodup {t more : Table κ α} (h : (t.keys ++ more.keys).Nodup) :
    t.merge more = t ++ more := by
  induction more generalizing t with
  | nil => exact (List.append_nil t).symm
  | cons entry rest ih =>
    have hnew : entry.1 ∉ t.keys := fun hmem =>
      (List.nodup_append.mp h).2.2 _ hmem _ (by simp [keys]) rfl
    have hrest : (Table.keys (t ++ [entry]) ++ Table.keys rest).Nodup := by
      simpa [keys] using h
    show (t.put entry.1 entry.2).merge rest = _
    rw [put_of_not_mem hnew, ih hrest, List.append_assoc]
    rfl

end Table

end FactIndex
