import FactIndex.Proofs.Store.Keeping
import FactIndex.Search.Cluster

/-!
# Aliases and generations

The search engine in memory knows two aliases, one for the documents and one for the stored lists. Each of
them stands for one generation of its index at most, which is there, and then no index has the name of the
alias itself. Writing documents leaves this as it is, although it may make an index, and so does removing
an index.

## Main definitions

* `Cluster.IsPaired`: aliases and generations are as described.
* `Cluster.Wrote`: what requests about documents do to indices and aliases.
* `Cluster.IsPaired.wrote`, `Cluster.IsPaired.withIndex`, `Cluster.IsPaired.withoutIndex`: what leaves
  aliases and generations so.
-/

namespace FactIndex

open FactIndex.Effect

/-! ## Names -/

namespace Deployment

variable {σ : Type} (d : Deployment σ)

/-- Types that name indices alike are the same. -/
theorem indexName_inj {type other : String} : d.indexName type = d.indexName other ↔ type = other :=
  ⟨fun h => String.append_right_inj _ |>.mp h, fun h => h ▸ rfl⟩

/-- A generation is called as if it were a type of its own. -/
theorem versionName_eq (type version : String) :
    d.versionName type version = d.indexName (type ++ "-" ++ version) := by
  simp only [versionName, indexName, String.append_assoc]

/-- No generation has the name of an alias. -/
theorem versionName_ne_indexName {type : String} (htype : type ∈ IndexType.all) {version : String}
    (hversion : version ∈ IndexType.versions) {other : String} (hother : other ∈ IndexType.all) :
    d.versionName type version ≠ d.indexName other := by
  have hne : ∀ type ∈ IndexType.all, ∀ version ∈ IndexType.versions, ∀ other ∈ IndexType.all,
      type ++ "-" ++ version ≠ other := by decide
  rw [versionName_eq, Ne, indexName_inj]
  exact hne type htype version hversion other hother

/-- Each generation has a name of its own. -/
theorem versionName_inj {type : String} (htype : type ∈ IndexType.all) {version : String}
    (hversion : version ∈ IndexType.versions) {type' : String} (htype' : type' ∈ IndexType.all)
    {version' : String} (hversion' : version' ∈ IndexType.versions) :
    d.versionName type version = d.versionName type' version' ↔ type = type' ∧ version = version' := by
  have hsame : ∀ type ∈ IndexType.all, ∀ version ∈ IndexType.versions, ∀ type' ∈ IndexType.all,
      ∀ version' ∈ IndexType.versions, type ++ "-" ++ version = type' ++ "-" ++ version' →
        type = type' ∧ version = version' := by decide
  rw [versionName_eq, versionName_eq, indexName_inj]
  refine ⟨hsame type htype version hversion type' htype' version' hversion', ?_⟩
  rintro ⟨rfl, rfl⟩
  rfl

end Deployment

theorem IndexType.otherVersion_mem (version : String) :
    Deployment.otherVersion version ∈ IndexType.versions := by
  unfold Deployment.otherVersion
  split <;> decide

theorem IndexType.otherVersion_ne {version : String} (h : version ∈ IndexType.versions) :
    Deployment.otherVersion version ≠ version := by
  revert version
  decide

/-- There are two generations. -/
theorem IndexType.eq_or_eq_otherVersion {version other : String} (h : version ∈ IndexType.versions)
    (hother : other ∈ IndexType.versions) : other = version ∨ other = Deployment.otherVersion version := by
  have hall : ∀ version ∈ IndexType.versions, ∀ other ∈ IndexType.versions,
      other = version ∨ other = Deployment.otherVersion version := by decide
  exact hall version h other hother

namespace Table

variable {κ α : Type} [DecidableEq κ]

theorem has_put_iff {t : Table κ α} {key other : κ} {value : α} :
    (t.put key value).has other = true ↔ other = key ∨ t.has other = true := by
  rw [has_iff, has_iff, mem_keys_put]

theorem has_erase_iff {t : Table κ α} {key other : κ} :
    (t.erase key).has other = true ↔ t.has other = true ∧ other ≠ key := by
  rw [has_iff, has_iff, keys_erase, List.mem_filter, decide_eq_true_iff]

end Table

namespace Cluster

variable {σ : Type} {d : Deployment σ} {c c' c'' : Cluster}

/-! ## Targets -/

/-- The targets of an alias, in the order in which they were added. -/
def added (c : Cluster) (name : String) : List String := (c.aliases.get? name).getD []

theorem perm_added (c : Cluster) (name : String) : (c.targets name).Perm (c.added name) :=
  List.mergeSort_perm _ _

theorem mem_targets {name index : String} : index ∈ c.targets name ↔ index ∈ c.added name :=
  (c.perm_added name).mem_iff

theorem targets_eq_nil {name : String} : c.targets name = [] ↔ c.added name = [] := by
  constructor
  · exact fun h => List.Perm.eq_nil (h ▸ (c.perm_added name).symm)
  · exact fun h => List.Perm.eq_nil (h ▸ c.perm_added name)

theorem targets_eq_singleton {name index : String} :
    c.targets name = [index] ↔ c.added name = [index] := by
  constructor
  · exact fun h => List.perm_singleton.mp (h ▸ (c.perm_added name).symm)
  · exact fun h => List.perm_singleton.mp (h ▸ c.perm_added name)

theorem targets_congr (h : c'.aliases = c.aliases) (name : String) : c'.targets name = c.targets name := by
  unfold targets
  rw [h]

theorem added_changeAlias_self (c : Cluster) (name index : String) (adds : Bool) :
    (c.changeAlias name index adds).added name =
      (c.added name).filter (· ≠ index) ++ (if adds then [index] else []) := by
  unfold changeAlias added
  dsimp only
  rw [Table.get?_put_self]
  cases adds <;> simp

/-- An alias that stands for an index at most stands for it once it is added. -/
theorem targets_changeAlias_self {name index : String} (h : ∀ other ∈ c.targets name, other = index) :
    (c.changeAlias name index true).targets name = [index] := by
  have hnone : (c.added name).filter (· ≠ index) = [] := by
    rw [List.filter_eq_nil_iff]
    intro other hother
    rw [decide_eq_true_iff, not_not]
    exact h other (mem_targets.mpr hother)
  rw [targets_eq_singleton, added_changeAlias_self, hnone]
  rfl

theorem mem_targets_changeAlias_false {name index other : String} :
    other ∈ (c.changeAlias name index false).targets name ↔ other ∈ c.targets name ∧ other ≠ index := by
  rw [mem_targets, added_changeAlias_self, if_neg Bool.false_ne_true, List.append_nil, List.mem_filter,
    decide_eq_true_iff, mem_targets]

theorem targets_changeAlias_of_ne (c : Cluster) {name other : String} (h : other ≠ name)
    (index : String) (adds : Bool) : (c.changeAlias name index adds).targets other = c.targets other := by
  unfold changeAlias targets
  dsimp only
  rw [Table.get?_put_of_ne _ _ (Ne.symm h)]

theorem added_removeIndex (c : Cluster) (index name : String) :
    (c.removeIndex index).added name = (c.added name).filter (· ≠ index) := by
  unfold removeIndex added
  dsimp only
  rw [Table.get?_map]
  cases c.aliases.get? name <;> rfl

/-- An alias that does not stand for an index keeps its targets when the index is removed. -/
theorem added_removeIndex_of_notMem {index name : String} (h : index ∉ c.targets name) :
    (c.removeIndex index).added name = c.added name := by
  rw [added_removeIndex, List.filter_eq_self]
  intro other hother
  exact decide_eq_true fun heq => h (mem_targets.mpr (heq ▸ hother))

theorem targets_removeIndex_of_notMem {index name : String} (h : index ∉ c.targets name) :
    (c.removeIndex index).targets name = c.targets name :=
  congrArg (List.mergeSort · _) (added_removeIndex_of_notMem h)

/-! ## Aliases and generations -/

/-- Aliases and generations are in order. No name is an alias but those of the indices of a store. Such an
alias stands for one generation at most. What an alias stands for is there, and no index has the name of
an alias that stands for something. -/
structure IsPaired (d : Deployment σ) (c : Cluster) : Prop where
  others : ∀ name, (∀ type ∈ IndexType.all, name ≠ d.indexName type) → c.targets name = []
  single : ∀ type ∈ IndexType.all, c.targets (d.indexName type) ≠ [] →
    ∃ version ∈ IndexType.versions, c.targets (d.indexName type) = [d.versionName type version]
  target : ∀ name, ∀ index ∈ c.targets name, c.indices.has index = true
  free : ∀ name, c.targets name ≠ [] → c.indices.has name = false

/-- Without any index there is nothing out of order. -/
theorem isPaired_of_empty (h : c.aliases = []) : c.IsPaired d := by
  have hnone : ∀ name, c.targets name = [] := by
    intro name
    rw [targets_eq_nil]
    unfold added
    rw [h]
    rfl
  refine ⟨fun name _ => hnone name, fun type _ hne => absurd (hnone _) hne, fun name index hmem => ?_,
    fun name hne => absurd (hnone _) hne⟩
  rw [hnone] at hmem
  cases hmem

namespace IsPaired

/-- Nothing counts but indices and aliases. -/
theorem congr (h : c.IsPaired d) (haliases : c'.aliases = c.aliases) (hindices : c'.indices = c.indices) :
    c'.IsPaired d := by
  obtain ⟨hothers, hsingle, htarget, hfree⟩ := h
  constructor
  all_goals simpa only [targets_congr haliases, hindices]

theorem targets_versionName (h : c.IsPaired d) {type : String} (htype : type ∈ IndexType.all)
    {version : String} (hversion : version ∈ IndexType.versions) :
    c.targets (d.versionName type version) = [] :=
  h.others _ fun _ hother => d.versionName_ne_indexName htype hversion hother

/-- What an alias stands for is a generation of its index. -/
theorem exists_of_mem (h : c.IsPaired d) {name index : String} (hmem : index ∈ c.targets name) :
    ∃ type ∈ IndexType.all, name = d.indexName type ∧
      ∃ version ∈ IndexType.versions, index = d.versionName type version := by
  by_cases hname : ∀ type ∈ IndexType.all, name ≠ d.indexName type
  · rw [h.others name hname] at hmem
    cases hmem
  · push Not at hname
    obtain ⟨type, htype, rfl⟩ := hname
    obtain ⟨version, hversion, heq⟩ := h.single type htype (List.ne_nil_of_mem hmem)
    rw [heq] at hmem
    exact ⟨type, htype, rfl, version, hversion, List.mem_singleton.mp hmem⟩

/-- What an alias stands for is no alias itself. -/
theorem targets_of_mem (h : c.IsPaired d) {name index : String} (hmem : index ∈ c.targets name) :
    c.targets index = [] := by
  obtain ⟨type, htype, -, version, hversion, rfl⟩ := h.exists_of_mem hmem
  exact h.targets_versionName htype hversion

end IsPaired

/-! ## Documents -/

/-- Documents were written. Aliases are the same as before, no index is gone, and if there is a new one,
then some name stood for it. -/
structure Wrote (c c' : Cluster) : Prop where
  aliases : c'.aliases = c.aliases
  errors : c'.errors = c.errors
  stays : ∀ name, c.indices.has name = true → c'.indices.has name = true
  made : ∀ name, c'.indices.has name = true → c.indices.has name = true ∨ ∃ other, c.resolve other = name

namespace Wrote

theorem of_eq (haliases : c'.aliases = c.aliases) (herrors : c'.errors = c.errors)
    (hindices : c'.indices = c.indices) : c.Wrote c' :=
  ⟨haliases, herrors, fun _ => hindices ▸ id, fun _ => hindices ▸ .inl⟩

theorem refl (c : Cluster) : c.Wrote c := of_eq rfl rfl rfl

theorem trans (h : c.Wrote c') (h' : c'.Wrote c'') : c.Wrote c'' := by
  refine ⟨h'.aliases.trans h.aliases, h'.errors.trans h.errors,
    fun name hname => h'.stays name (h.stays name hname), fun name hname => ?_⟩
  rcases h'.made name hname with hthere | ⟨other, hother⟩
  · exact h.made name hthere
  · refine .inr ⟨other, ?_⟩
    rw [← hother]
    unfold resolve
    rw [targets_congr h.aliases]

theorem setDocuments (c : Cluster) (name : String) (docs : Documents) :
    c.Wrote (c.setDocuments name docs) where
  aliases := rfl
  errors := rfl
  stays _ h := Table.has_put_iff.mpr (.inr h)
  made _ h := (Table.has_put_iff.mp h).elim (fun heq => .inr ⟨name, heq.symm⟩) .inl

theorem store (c : Cluster) (index id : String) (document : Json) : c.Wrote (c.store index id document) :=
  setDocuments c _ _

/-- By induction on the operations of a bulk request, of which the second may belong to the first. -/
theorem writeAll (c : Cluster) (operations : List Json) : c.Wrote (c.writeAll operations).2 := by
  fun_induction Cluster.writeAll c operations with
  | case1 c => exact refl c
  | case2 c rest target more index id isRefused wasThere report next reports last hrest hnext ih =>
      rw [hrest] at ih
      refine trans ?_ ih
      split at hnext
      · cases hnext
        exact refl c
      · cases hnext
        exact setDocuments c _ _
  | case3 c action target more index id isRefused hdelete source rest report next hnext reports last
      hrest ih =>
      rw [hrest] at ih
      refine trans ?_ ih
      split at hnext
      · cases hnext
        exact refl c
      · split at hnext
        · cases hnext
          exact store c _ _ _
        · cases hnext
          exact store c _ _ _
  | case4 c => exact refl c
  | case5 c => exact refl c

theorem bulk (c : Cluster) (operations : List Json) : c.Wrote (c.bulk operations).2 :=
  writeAll c operations

theorem search (c : Cluster) (index : String) (options : Members) :
    c.Wrote (c.search index options).2 := by
  unfold Cluster.search
  split
  · exact of_eq rfl rfl rfl
  · exact refl c

/-- A request about documents writes documents at most. -/
theorem answer {r : Request} (h : r.managesIndices = false) (c : Cluster) : c.Wrote (c.answer r).2 := by
  unfold Cluster.answer
  split
  · exact refl c
  · split
    · cases r with
      | search index options => exact search c index options
      | store index id document => exact store c index id document
      | bulk operations => exact bulk c operations
      | createIndex _ _ => cases h
      | deleteIndex _ => cases h
      | updateAliases _ => cases h
      | _ => exact of_eq rfl rfl rfl
    · exact refl c

end Wrote

/-! ## What leaves aliases and generations in order -/

namespace IsPaired

/-- Writing documents. An index that is made then is no alias, because what stands for another index
stands for a generation. -/
theorem wrote (h : c.IsPaired d) (hwrote : c.Wrote c') : c'.IsPaired d := by
  have htargets := targets_congr hwrote.aliases
  refine ⟨fun name hname => ?_, fun type htype hne => ?_, fun name index hmem => ?_, fun name hne => ?_⟩
  · rw [htargets, h.others name hname]
  · rw [htargets] at hne ⊢
    exact h.single type htype hne
  · rw [htargets] at hmem
    exact hwrote.stays index (h.target name index hmem)
  · rw [htargets] at hne
    refine Bool.eq_false_iff.mpr fun hthere => ?_
    rcases hwrote.made name hthere with hbefore | ⟨other, hother⟩
    · rw [h.free name hne] at hbefore
      cases hbefore
    · unfold resolve at hother
      cases hhead : (c.targets other).head? with
      | none =>
          rw [hhead] at hother
          cases hother
          exact hne (List.head?_eq_none_iff.mp hhead)
      | some index =>
          rw [hhead] at hother
          cases hother
          exact hne (h.targets_of_mem (List.mem_of_mem_head? hhead))

/-- Making an index that has not the name of an alias. -/
theorem withIndex (h : c.IsPaired d) {name : String} (hname : c.targets name = []) :
    ({ c with indices := c.indices.put name [] } : Cluster).IsPaired d := by
  refine ⟨h.others, h.single, fun other index hmem => ?_, fun other hne => ?_⟩
  · exact Table.has_put_iff.mpr (.inr (h.target other index hmem))
  · refine Bool.eq_false_iff.mpr fun hthere => ?_
    rcases Table.has_put_iff.mp hthere with rfl | hbefore
    · exact hne hname
    · rw [h.free other hne] at hbefore
      cases hbefore

/-- Removing any index. -/
theorem removeIndex (h : c.IsPaired d) (index : String) : (c.removeIndex index).IsPaired d := by
  have hsub : ∀ name other, other ∈ (c.removeIndex index).targets name →
      other ∈ c.targets name ∧ other ≠ index := by
    intro name other hmem
    rw [mem_targets, added_removeIndex, List.mem_filter, decide_eq_true_iff] at hmem
    exact ⟨mem_targets.mpr hmem.1, hmem.2⟩
  have hne : ∀ {name}, (c.removeIndex index).targets name ≠ [] → c.targets name ≠ [] := by
    intro name hname hnone
    obtain ⟨other, hother⟩ := List.exists_mem_of_ne_nil _ hname
    exact List.not_mem_nil (hnone ▸ (hsub name other hother).1)
  refine ⟨fun name hname => ?_, fun type htype hsome => ?_, fun name other hmem => ?_,
    fun name hsome => ?_⟩
  · exact Decidable.not_not.mp fun hsome => hne hsome (h.others name hname)
  · obtain ⟨version, hversion, heq⟩ := h.single type htype (hne hsome)
    have hkept : index ∉ c.targets (d.indexName type) := by
      intro hmem
      obtain ⟨other, hother⟩ := List.exists_mem_of_ne_nil _ hsome
      obtain ⟨hthere, hother⟩ := hsub _ other hother
      rw [heq, List.mem_singleton] at hmem hthere
      exact hother (hthere.trans hmem.symm)
    exact ⟨version, hversion, (targets_removeIndex_of_notMem hkept).trans heq⟩
  · obtain ⟨hthere, hother⟩ := hsub name other hmem
    exact Table.has_erase_iff.mpr ⟨h.target name other hthere, hother⟩
  · refine Bool.eq_false_iff.mpr fun hthere => ?_
    have hbefore := (Table.has_erase_iff.mp hthere).1
    rw [h.free name (hne hsome)] at hbefore
    cases hbefore

/-- Letting an alias stand for a generation and for nothing else, where no index has its name. -/
theorem retarget (h : c.IsPaired d) {type version : String} (htype : type ∈ IndexType.all)
    (hversion : version ∈ IndexType.versions)
    (hthere : c.indices.has (d.versionName type version) = true)
    (hfree : c.indices.has (d.indexName type) = false) (hindices : c'.indices = c.indices)
    (hself : c'.targets (d.indexName type) = [d.versionName type version])
    (hothers : ∀ name, name ≠ d.indexName type → c'.targets name = c.targets name) : c'.IsPaired d := by
  refine ⟨fun name hname => ?_, fun other hother hne => ?_, fun name index hmem => ?_, fun name hne => ?_⟩
  · rw [hothers name (hname type htype), h.others name hname]
  · rcases eq_or_ne other type with rfl | hdistinct
    · exact ⟨version, hversion, hself⟩
    · rw [hothers _ fun heq => hdistinct (d.indexName_inj.mp heq)] at hne ⊢
      exact h.single other hother hne
  · rw [hindices]
    rcases eq_or_ne name (d.indexName type) with rfl | hdistinct
    · rw [hself, List.mem_singleton] at hmem
      exact hmem ▸ hthere
    · rw [hothers name hdistinct] at hmem
      exact h.target name index hmem
  · rw [hindices]
    rcases eq_or_ne name (d.indexName type) with rfl | hdistinct
    · exact hfree
    · rw [hothers name hdistinct] at hne
      exact h.free name hne

end IsPaired

end Cluster

end FactIndex
