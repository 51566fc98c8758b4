import FactIndex.Proofs.Generation.Request

/-!
# Making, moving and removing generations

The three operations on generations send several requests each, of which any may fail. Whatever comes of
them, aliases and generations stay in order. When an index has been set up, or moved to a generation, its
alias stands for that one, and the other one is gone.

Setting up does nothing to the other index. Nor does it do anything to the generation that an alias stands
for, unless that is the second one and there is a first one as well.

## Main definitions

* `Cluster.StandsFor`: an alias stands for a generation, and the other one is gone.
* `Cluster.Settles`: what setting up an index may do.
* `Deployment.brings_setupIndex`, `Deployment.brings_rollover`, `Deployment.keeps_drop`: the operations.
-/

namespace FactIndex

open FactIndex.Effect

variable {α : Type} {d : Deployment Cluster} {c c' c'' : Cluster} {name type version : String}

namespace Deployment

/-- The names of an index: its alias and its generations. -/
def names (d : Deployment Cluster) (type : String) : List String :=
  d.indexName type :: IndexType.versions.map (d.versionName type)

theorem indexName_mem_names : d.indexName type ∈ d.names type := List.mem_cons_self

theorem versionName_mem_names (h : version ∈ IndexType.versions) :
    d.versionName type version ∈ d.names type :=
  List.mem_cons_of_mem _ (List.mem_map_of_mem h)

/-- Different indices have different names. -/
theorem notMem_names {other : String} (htype : type ∈ IndexType.all) (hother : other ∈ IndexType.all)
    (hne : other ≠ type) (hname : name ∈ d.names other) : name ∉ d.names type := by
  intro hmem
  rcases List.mem_cons.mp hname with rfl | hname
  · rcases List.mem_cons.mp hmem with heq | hmem
    · exact hne (d.indexName_inj.mp heq)
    · obtain ⟨version, hversion, heq⟩ := List.mem_map.mp hmem
      exact d.versionName_ne_indexName htype hversion hother heq
  · obtain ⟨version, hversion, rfl⟩ := List.mem_map.mp hname
    rcases List.mem_cons.mp hmem with heq | hmem
    · exact d.versionName_ne_indexName hother hversion htype heq
    · obtain ⟨version', hversion', heq⟩ := List.mem_map.mp hmem
      exact hne ((d.versionName_inj htype hversion' hother hversion).mp heq).1.symm

end Deployment

namespace Cluster

/-- The alias of an index stands for a generation, which is there, and the other generation is gone. -/
structure StandsFor (d : Deployment Cluster) (type version : String) (c : Cluster) : Prop where
  there : c.indices.has (d.versionName type version) = true
  targets : c.targets (d.indexName type) = [d.versionName type version]
  other : c.indices.has (d.versionName type (Deployment.otherVersion version)) = false

/-! ## What setting up may do -/

/-- What goes by the names of an index is the same. -/
def SameFor (d : Deployment Cluster) (type : String) (c c' : Cluster) : Prop :=
  ∀ name ∈ d.names type, c'.indices.get? name = c.indices.get? name ∧ c'.targets name = c.targets name

/-- A generation that the alias of an index stands for is not touched, nor are its documents, unless it is
the second one and there is a first one. The first one is not touched at all. -/
structure Spares (d : Deployment Cluster) (type : String) (c c' : Cluster) : Prop where
  first : c.indices.has (d.versionName type "v1") = true →
    c'.indices.get? (d.versionName type "v1") = c.indices.get? (d.versionName type "v1")
  active : ∀ version ∈ IndexType.versions, c.targets (d.indexName type) = [d.versionName type version] →
    (version = "v1" ∨ c.indices.has (d.versionName type "v1") = false) →
      c'.targets (d.indexName type) = [d.versionName type version] ∧
        c'.indices.get? (d.versionName type version) = c.indices.get? (d.versionName type version) ∧
        c'.indices.has (d.versionName type "v1") = c.indices.has (d.versionName type "v1")

/-- What setting up an index may do, be it done to the end or not. -/
structure Settles (d : Deployment Cluster) (type : String) (c c' : Cluster) : Prop where
  inOrder : c'.InOrder d
  apart : ∀ name ∉ d.names type,
    c'.indices.get? name = c.indices.get? name ∧ c'.targets name = c.targets name
  spares : Spares d type c c'

namespace SameFor

theorem has (h : SameFor d type c c') (hname : name ∈ d.names type) :
    c'.indices.has name = c.indices.has name :=
  congrArg Option.isSome (h name hname).1

theorem trans (h : SameFor d type c c') (h' : SameFor d type c' c'') : SameFor d type c c'' :=
  fun name hname =>
    ⟨(h' name hname).1.trans (h name hname).1, (h' name hname).2.trans (h name hname).2⟩

theorem spares (h : SameFor d type c c') : Spares d type c c' where
  first _ := (h _ (d.versionName_mem_names (by decide))).1
  active version hversion htargets _ :=
    ⟨(h _ d.indexName_mem_names).2.trans htargets, (h _ (d.versionName_mem_names hversion)).1,
      h.has (d.versionName_mem_names (by decide))⟩

theorem standsFor (h : SameFor d type c c') (hversion : version ∈ IndexType.versions)
    (hstands : StandsFor d type version c) : StandsFor d type version c' where
  there := (h.has (d.versionName_mem_names hversion)).trans hstands.there
  targets := (h _ d.indexName_mem_names).2.trans hstands.targets
  other := (h.has (d.versionName_mem_names (IndexType.otherVersion_mem _))).trans hstands.other

end SameFor

theorem Spares.trans (h : Spares d type c c') (h' : Spares d type c' c'') : Spares d type c c'' where
  first hfirst := by
    have hsame := h.first hfirst
    refine (h'.first ?_).trans hsame
    unfold Table.has at hfirst ⊢
    rwa [hsame]
  active version hversion htargets hwhen := by
    obtain ⟨htargets', hdocuments, hfirst⟩ := h.active version hversion htargets hwhen
    obtain ⟨htargets'', hdocuments', hfirst'⟩ :=
      h'.active version hversion htargets' (hwhen.imp id hfirst.trans)
    exact ⟨htargets'', hdocuments'.trans hdocuments, hfirst'.trans hfirst⟩

namespace Settles

theorem refl (h : c.InOrder d) : Settles d type c c where
  inOrder := h
  apart _ _ := ⟨rfl, rfl⟩
  spares := ⟨fun _ => rfl, fun _ _ h _ => ⟨h, rfl, rfl⟩⟩

theorem trans (h : Settles d type c c') (h' : Settles d type c' c'') : Settles d type c c'' where
  inOrder := h'.inOrder
  apart name hname :=
    ⟨(h'.apart name hname).1.trans (h.apart name hname).1,
      (h'.apart name hname).2.trans (h.apart name hname).2⟩
  spares := h.spares.trans h'.spares

/-- Setting up an index does nothing to another one. -/
theorem sameFor (h : Settles d type c c') (htype : type ∈ IndexType.all) {other : String}
    (hother : other ∈ IndexType.all) (hne : other ≠ type) : SameFor d other c c' :=
  fun name hname => h.apart name (Deployment.notMem_names htype hother hne hname)

/-- Removing an index that has the name of the alias. -/
theorem clear (h : c.InOrder d) (htype : type ∈ IndexType.all) (hnone : c.targets (d.indexName type) = []) :
    Settles d type c (c.withoutIndex (d.indexName type)) where
  inOrder := h.withoutIndex _
  apart name hname := by
    refine ⟨get?_withoutIndex_of_ne fun heq => hname (heq ▸ d.indexName_mem_names),
      targets_withoutIndex_of_notMem fun hmem => ?_⟩
    obtain ⟨other, hother, -, version, hversion, heq⟩ := h.paired.exists_of_mem hmem
    exact d.versionName_ne_indexName hother hversion htype heq.symm
  spares := by
    refine ⟨fun _ => get?_withoutIndex_of_ne (d.versionName_ne_indexName htype (by decide) htype),
      fun version _ htargets _ => ?_⟩
    rw [hnone] at htargets
    cases htargets

/-- Removing the second generation, where there is a first one. -/
theorem removeSecond (h : c.InOrder d) (htype : type ∈ IndexType.all)
    (hfirst : c.indices.has (d.versionName type "v1") = true) :
    Settles d type c (c.withoutIndex (d.versionName type "v2")) := by
  have hne : d.versionName type "v1" ≠ d.versionName type "v2" := fun heq =>
    absurd ((d.versionName_inj htype (by decide) htype (by decide)).mp heq).2 (by decide)
  refine ⟨h.withoutIndex _, fun name hname => ⟨?_, ?_⟩, fun _ => get?_withoutIndex_of_ne hne,
    fun version _ htargets hwhen => ?_⟩
  · exact get?_withoutIndex_of_ne fun heq => hname (heq ▸ d.versionName_mem_names (by decide))
  · refine targets_withoutIndex_of_notMem fun hmem => ?_
    obtain ⟨other, hother, rfl, version, hversion, heq⟩ := h.paired.exists_of_mem hmem
    have hsame := ((d.versionName_inj htype (by decide) hother hversion).mp heq).1
    exact hname (hsame ▸ d.indexName_mem_names)
  · rcases hwhen with rfl | hnone
    · refine ⟨?_, get?_withoutIndex_of_ne hne, ?_⟩
      · rw [targets_withoutIndex_of_notMem, htargets]
        rw [htargets, List.mem_singleton]
        exact hne.symm
      · unfold Table.has
        rw [get?_withoutIndex_of_ne hne]
    · rw [hfirst] at hnone
      cases hnone

/-- Making the first generation, where there is none. -/
theorem makeFirst (h : c.InOrder d) (htype : type ∈ IndexType.all)
    (hnone : ∀ version ∈ IndexType.versions, c.indices.has (d.versionName type version) = false) :
    Settles d type c (c.withIndex (d.versionName type "v1")) := by
  refine ⟨h.withIndex (h.paired.targets_versionName htype (by decide)),
    fun name hname => ⟨?_, targets_withIndex _ _ _⟩, fun hfirst => ?_, fun version hversion htargets _ => ?_⟩
  · exact get?_withIndex_of_ne fun heq => hname (heq ▸ d.versionName_mem_names (by decide))
  · rw [hnone "v1" (by decide)] at hfirst
    cases hfirst
  · have hthere := h.paired.target (d.indexName type) (d.versionName type version)
      (htargets ▸ List.mem_singleton_self _)
    rw [hnone version hversion] at hthere
    cases hthere

end Settles

/-- What setting up some of the indices may do, be it done to the end or not. -/
structure SettlesAll (d : Deployment Cluster) (types : List String) (c c' : Cluster) : Prop where
  inOrder : c'.InOrder d
  same : ∀ type ∈ IndexType.all, type ∉ types → SameFor d type c c'
  spares : ∀ type ∈ IndexType.all, Spares d type c c'

theorem SettlesAll.refl {types : List String} (h : c.InOrder d) : SettlesAll d types c c where
  inOrder := h
  same _ _ _ _ _ := ⟨rfl, rfl⟩
  spares _ _ := (Settles.refl h).spares

/-- Setting up one index and then others. -/
theorem Settles.all (h : Settles d type c c') (htype : type ∈ IndexType.all) {types : List String}
    (h' : SettlesAll d types c' c'') : SettlesAll d (type :: types) c c'' where
  inOrder := h'.inOrder
  same other hother hnot :=
    (h.sameFor htype hother fun heq => hnot (heq ▸ List.mem_cons_self)).trans
      (h'.same other hother fun hmem => hnot (List.mem_cons_of_mem _ hmem))
  spares other hother := by
    refine Spares.trans ?_ (h'.spares other hother)
    rcases eq_or_ne other type with rfl | hne
    · exact h.spares
    · exact (h.sameFor htype hother hne).spares

/-! ## Pointing an alias -/

/-- The alias of an index stands for a generation of it. -/
theorem InOrder.eq_or_eq (h : c.InOrder d) (hversion : version ∈ IndexType.versions) {index : String}
    (hmem : index ∈ c.targets (d.indexName type)) : index = d.versionName type version ∨
      index = d.versionName type (Deployment.otherVersion version) := by
  obtain ⟨type', -, heq, version', hversion', rfl⟩ := h.paired.exists_of_mem hmem
  cases d.indexName_inj.mp heq
  rcases IndexType.eq_or_eq_otherVersion hversion hversion' with rfl | rfl
  · exact .inl rfl
  · exact .inr rfl

/-- Only what is there is stood for. -/
theorem InOrder.eq_of_mem_targets (h : c.InOrder d) (hversion : version ∈ IndexType.versions)
    (hother : c.indices.has (d.versionName type (Deployment.otherVersion version)) = false)
    {index : String} (hmem : index ∈ c.targets (d.indexName type)) :
    index = d.versionName type version := by
  rcases h.eq_or_eq hversion hmem with heq | rfl
  · exact heq
  · rw [h.paired.target _ _ hmem] at hother
    cases hother

/-- Letting the alias stand for a generation beside which there is no other one. -/
theorem Settles.point (h : c.InOrder d) (htype : type ∈ IndexType.all)
    (hversion : version ∈ IndexType.versions)
    (hthere : c.indices.has (d.versionName type version) = true)
    (hother : c.indices.has (d.versionName type (Deployment.otherVersion version)) = false)
    (hfree : c.indices.has (d.indexName type) = false) :
    Settles d type c (c.changeAlias (d.indexName type) (d.versionName type version) true) ∧
      StandsFor d type version (c.changeAlias (d.indexName type) (d.versionName type version) true) := by
  have hall : ∀ index ∈ c.targets (d.indexName type), index = d.versionName type version :=
    fun _ => h.eq_of_mem_targets hversion hother
  have hself := targets_changeAlias_self hall
  have hothers : ∀ name, name ≠ d.indexName type →
      (c.changeAlias (d.indexName type) (d.versionName type version) true).targets name =
        c.targets name :=
    fun _ hne => c.targets_changeAlias_of_ne hne _ _
  refine ⟨⟨⟨h.paired.retarget htype hversion hthere hfree rfl hself hothers, h.candid.of_errors rfl⟩,
    fun name hname => ⟨rfl, hothers name fun heq => hname (heq ▸ d.indexName_mem_names)⟩, fun _ => rfl,
    fun version' hversion' htargets _ => ⟨?_, rfl, rfl⟩⟩, ⟨hthere, hself, hother⟩⟩
  have hsame := hall (d.versionName type version') (htargets ▸ List.mem_singleton_self _)
  rw [hself, hsame]

/-- Taking the alias away from the other generation, if it stands for it, and giving it to a generation. -/
theorem InOrder.turn (h : c.InOrder d) (htype : type ∈ IndexType.all)
    (hversion : version ∈ IndexType.versions)
    (hthere : c.indices.has (d.versionName type version) = true)
    (hfree : c.indices.has (d.indexName type) = false) {targets : List String}
    (htargets : ∀ index, index ∈ targets ↔ index ∈ c.targets (d.indexName type)) (hafter : c' =
      c.changeAliases ((if targets.contains (d.versionName type (Deployment.otherVersion version)) = true
        then [Deployment.removeAlias (d.versionName type (Deployment.otherVersion version))
          (d.indexName type)] else []) ++
            [Deployment.addAlias (d.versionName type version) (d.indexName type)])) :
    c'.InOrder d ∧ c'.targets (d.indexName type) = [d.versionName type version] := by
  -- once the other generation is out of the way, the alias stands for nothing but the new one
  obtain ⟨mid, hmid, hindices, herrors, hall, hothers⟩ : ∃ mid : Cluster,
      c' = mid.changeAlias (d.indexName type) (d.versionName type version) true ∧
        mid.indices = c.indices ∧ mid.errors = c.errors ∧
        (∀ index ∈ mid.targets (d.indexName type), index = d.versionName type version) ∧
        ∀ name, name ≠ d.indexName type → mid.targets name = c.targets name := by
    cases hcontains : targets.contains (d.versionName type (Deployment.otherVersion version)) with
    | true =>
        rw [hcontains, if_pos rfl] at hafter
        refine ⟨c.changeAlias (d.indexName type)
          (d.versionName type (Deployment.otherVersion version)) false, hafter, rfl, rfl,
          fun index hindex => ?_, fun name hne => targets_changeAlias_of_ne c hne _ _⟩
        obtain ⟨hmem, hne⟩ := mem_targets_changeAlias_false.mp hindex
        exact (h.eq_or_eq hversion hmem).resolve_right hne
    | false =>
        rw [hcontains, if_neg Bool.false_ne_true] at hafter
        refine ⟨c, hafter, rfl, rfl, fun index hindex => ?_, fun _ _ => rfl⟩
        refine (h.eq_or_eq hversion hindex).resolve_right ?_
        rintro rfl
        rw [List.contains_iff_mem.mpr ((htargets _).mpr hindex)] at hcontains
        cases hcontains
  have hself := targets_changeAlias_self hall
  rw [← hmid] at hself
  refine ⟨⟨h.paired.retarget htype hversion hthere hfree ?_ hself fun name hne => ?_,
    h.candid.of_errors ?_⟩, hself⟩
  · rw [hmid]
    exact hindices
  · rw [hmid, targets_changeAlias_of_ne mid hne, hothers name hne]
  · rw [hmid]
    exact herrors

end Cluster

namespace Deployment

/-! ## The operations -/

/-- Removing an index that has the name of the alias. -/
theorem brings_clearName (hclient : d.client = Cluster.client) (h : c.InOrder d)
    (htype : type ∈ IndexType.all) : Brings (d.clearName (d.indexName type)) c fun r after =>
      Cluster.Settles d type c after ∧ (r = .ok () → after.indices.has (d.indexName type) = false) := by
  have hsame : Cluster.Settles d type c c := .refl h
  refine brings_indexExists hclient ?_ fun e => ⟨hsame, nofun⟩
  cases hname : c.hasName (d.indexName type) with
  | false =>
      refine Brings.pure ⟨hsame, fun _ => ?_⟩
      unfold Cluster.hasName at hname
      exact (Bool.or_eq_false_iff.mp hname).1
  | true =>
      refine brings_aliasExists hclient ?_ fun e => ⟨hsame, nofun⟩
      cases hnone : (c.targets (d.indexName type)).isEmpty with
      | false =>
          refine Brings.pure ⟨hsame, fun _ => h.paired.free _ fun heq => ?_⟩
          rw [heq] at hnone
          cases hnone
      | true =>
          refine brings_deleteIndex hclient h.candid (fun _ => Brings.pure ⟨?_, fun _ => ?_⟩)
            fun e => ⟨hsame, nofun⟩
          · exact Cluster.Settles.clear h htype (List.isEmpty_iff.mp hnone)
          · exact Bool.eq_false_iff.mpr fun hthere => (Cluster.has_withoutIndex.mp hthere).2 rfl

theorem brings_activeVersion (hclient : d.client = Cluster.client) (h : c.InOrder d)
    (htype : type ∈ IndexType.all) : Brings (d.activeVersion type) c fun r after =>
      Cluster.Settles d type c after ∧
        after.indices.get? (d.indexName type) = c.indices.get? (d.indexName type) ∧
        ∀ active, r = .ok active → ∃ version ∈ IndexType.versions, active = d.versionName type version ∧
          after.indices.has (d.versionName type version) = true ∧
          after.indices.has (d.versionName type (otherVersion version)) = false := by
  have hsame : Cluster.Settles d type c c := .refl h
  have hfirst : "v1" ∈ IndexType.versions := by decide
  have hsecond : "v2" ∈ IndexType.versions := by decide
  have hne : ∀ {version}, version ∈ IndexType.versions →
      d.indexName type ≠ d.versionName type version := fun hversion heq =>
    d.versionName_ne_indexName htype hversion htype heq.symm
  unfold activeVersion
  refine brings_indexExists hclient ?_ fun e => ⟨hsame, rfl, fun _ => nofun⟩
  rw [Cluster.hasName_of_targets (h.paired.targets_versionName htype hfirst)]
  -- the first generation is the active one wherever it is there, even beside the second
  cases hthere : c.indices.has (d.versionName type "v1") with
  | true =>
      refine brings_removeIndex hclient h.candid (h.paired.targets_versionName htype hsecond)
        (Brings.pure ⟨Cluster.Settles.removeSecond h htype hthere,
          Cluster.get?_withoutIndex_of_ne (hne hsecond), fun active hactive => ?_⟩)
        fun e => ⟨hsame, rfl, fun _ => nofun⟩
      cases hactive
      refine ⟨"v1", hfirst, rfl, Cluster.has_withoutIndex.mpr ⟨hthere, fun heq => ?_⟩, ?_⟩
      · exact absurd ((d.versionName_inj htype hfirst htype hsecond).mp heq).2 (by decide)
      · exact Bool.eq_false_iff.mpr fun hmem => (Cluster.has_withoutIndex.mp hmem).2 rfl
  | false =>
      refine brings_indexExists hclient ?_ fun e => ⟨hsame, rfl, fun _ => nofun⟩
      rw [Cluster.hasName_of_targets (h.paired.targets_versionName htype hsecond)]
      cases hother : c.indices.has (d.versionName type "v2") with
      | true =>
          refine Brings.pure ⟨hsame, rfl, fun active hactive => ?_⟩
          cases hactive
          exact ⟨"v2", hsecond, rfl, hother, hthere⟩
      | false =>
          have hnone : ∀ version ∈ IndexType.versions,
              c.indices.has (d.versionName type version) = false := by
            intro version hversion
            rcases IndexType.eq_or_eq_otherVersion hfirst hversion with rfl | rfl
            · exact hthere
            · exact hother
          refine brings_createIndex hclient h.candid (fun _ => Brings.pure
            ⟨Cluster.Settles.makeFirst h htype hnone, Cluster.get?_withIndex_of_ne (hne hfirst),
              fun active hactive => ?_⟩) fun e => ⟨hsame, rfl, fun _ => nofun⟩
          cases hactive
          refine ⟨"v1", hfirst, rfl, Cluster.has_withIndex.mpr (.inl rfl), ?_⟩
          refine Bool.eq_false_iff.mpr fun hmem => ?_
          rcases Cluster.has_withIndex.mp hmem with heq | hmem
          · exact absurd ((d.versionName_inj htype hsecond htype hfirst).mp heq).2 (by decide)
          · rw [show otherVersion "v1" = "v2" from rfl, hother] at hmem
            cases hmem

/-- Setting up an index. The answer is the generation that the alias stands for then. -/
theorem brings_setupIndex (hclient : d.client = Cluster.client) (h : c.InOrder d)
    (htype : type ∈ IndexType.all) : Brings (d.setupIndex type) c fun r after =>
      Cluster.Settles d type c after ∧ ∀ active, r = .ok active → ∃ version ∈ IndexType.versions,
        active = d.versionName type version ∧ Cluster.StandsFor d type version after := by
  refine (brings_clearName hclient h htype).bind (fun _ cleared => ?_) fun e _ hcleared =>
    ⟨hcleared.1, fun _ => nofun⟩
  rintro ⟨hsettles, hfree⟩
  have hname := hfree rfl
  refine ((brings_activeVersion hclient hsettles.inOrder htype).bind (fun active found => ?_)
    fun e _ hfound => ⟨hsettles.trans hfound.1, fun _ => nofun⟩)
  rintro ⟨hsettles', hkept, hactive⟩
  obtain ⟨version, hversion, rfl, hthere, hother⟩ := hactive active rfl
  have hfound := hsettles.trans hsettles'
  have hname' : found.indices.has (d.indexName type) = false := by
    unfold Table.has at hname ⊢
    rwa [hkept]
  have hchange : found.changeAliases [addAlias (d.versionName type version) (d.indexName type)] =
      found.changeAlias (d.indexName type) (d.versionName type version) true := rfl
  obtain ⟨hpoint, hstands⟩ := Cluster.Settles.point hfound.inOrder htype hversion hthere hother hname'
  refine brings_updateAliases hclient (Brings.pure ?_) fun e => ⟨hfound, fun _ => nofun⟩
  rw [hchange]
  refine ⟨hfound.trans hpoint, fun active hactive => ?_⟩
  cases hactive
  exact ⟨version, hversion, rfl, hstands⟩

/-- Setting up several indices, by induction on them. -/
theorem brings_setupAll (hclient : d.client = Cluster.client) {types : List String} (hnodup : types.Nodup)
    (hsub : types ⊆ IndexType.all) (h : c.InOrder d) :
    Brings (types.mapM fun type => do return (type, ← d.setupIndex type)) c fun r after =>
      Cluster.SettlesAll d types c after ∧ ∀ table, r = .ok table → ∀ type ∈ types,
        ∃ version ∈ IndexType.versions, Table.get? table type = some (d.versionName type version) ∧
          Cluster.StandsFor d type version after := by
  induction types generalizing c with
  | nil => exact Brings.pure ⟨Cluster.SettlesAll.refl h, fun _ _ _ => nofun⟩
  | cons type types ih =>
      obtain ⟨hnew, hnodup⟩ := List.nodup_cons.mp hnodup
      obtain ⟨htype, hsub⟩ := List.cons_subset.mp hsub
      rw [List.mapM_cons, bind_assoc]
      refine (brings_setupIndex hclient h htype).bind (fun active settled => ?_)
        fun e after hstopped => ⟨hstopped.1.all htype (Cluster.SettlesAll.refl hstopped.1.inOrder),
          fun _ => nofun⟩
      rintro ⟨hsettles, hactive⟩
      obtain ⟨version, hversion, rfl, hstands⟩ := hactive active rfl
      rw [pure_bind]
      refine (ih hnodup hsub hsettles.inOrder).bind (fun table after => ?_)
        fun e after hstopped => ⟨hsettles.all htype hstopped.1, fun _ => nofun⟩
      rintro ⟨hrest, htable⟩
      refine Brings.pure ⟨hsettles.all htype hrest, ?_⟩
      rintro _ ⟨⟩ other hother
      rcases List.mem_cons.mp hother with rfl | hother
      · exact ⟨version, hversion, if_pos rfl, (hrest.same _ htype hnew).standsFor hversion hstands⟩
      · obtain ⟨version', hversion', hget, hstands'⟩ := htable table rfl other hother
        refine ⟨version', hversion', (if_neg ?_).trans hget, hstands'⟩
        rintro rfl
        exact hnew hother

/-- Setting up both indices. -/
theorem brings_setup (hclient : d.client = Cluster.client) (h : c.InOrder d) :
    Brings d.setup c fun r after => after.InOrder d ∧
      (∀ type ∈ IndexType.all, Cluster.Spares d type c after) ∧
      ∀ table, r = .ok table → ∀ type ∈ IndexType.all, ∃ version ∈ IndexType.versions,
        Table.get? table type = some (d.versionName type version) ∧
          Cluster.StandsFor d type version after :=
  (brings_setupAll hclient (by decide) (List.Subset.refl _) h).mono
    fun _ _ hsettled => ⟨hsettled.1.inOrder, hsettled.1.spares, hsettled.2⟩

/-- Releasing the lock is the last step of a rollover. -/
theorem brings_releaseLock {β : Type} {post : Except Failure β → Cluster → Prop} (b : β)
    (h : ∀ r, post r c) : Brings (d.releaseLock type >>= fun _ => pure b) c post :=
  (Brings.of_leaves ((d.leaves_engine_releaseLock type).bind fun _ => Leaves.pure b)).mono
    fun r _ heq => heq ▸ h r

/-- Moving an index to a generation. -/
theorem brings_rollover (hclient : d.client = Cluster.client) (h : c.InOrder d)
    (htype : type ∈ IndexType.all) (hlive : c.targets (d.indexName type) ≠ []) (version : String) :
    Brings (d.rollover type version) c fun r after => after.InOrder d ∧
      ∀ removed, r = .ok removed →
        version ∈ IndexType.versions ∧ Cluster.StandsFor d type version after := by
  unfold rollover
  cases hcontains : IndexType.versions.contains version with
  | false => exact Brings.throw ⟨h, fun _ => nofun⟩
  | true =>
  have hversion : version ∈ IndexType.versions := List.contains_iff_mem.mp hcontains
  have hnew := h.paired.targets_versionName htype hversion
  dsimp only
  rw [Bool.not_true, if_neg Bool.false_ne_true]
  refine brings_ensureIndex hclient h.candid hnew ?_ fun e => ⟨h, fun _ => nofun⟩
  have hthere : (c.withIndex (d.versionName type version)).indices.has (d.versionName type version) = true :=
    Cluster.has_withIndex.mpr (.inl rfl)
  have hfree : (c.withIndex (d.versionName type version)).indices.has (d.indexName type) = false := by
    unfold Table.has
    rw [Cluster.get?_withIndex_of_ne fun heq => d.versionName_ne_indexName htype hversion htype heq.symm]
    exact h.paired.free _ hlive
  -- from here on the new generation is there, whether it has just been made or not
  replace h := h.withIndex hnew
  generalize c.withIndex (d.versionName type version) = c at h hthere hfree
  refine brings_indexExists hclient ?_ fun e => ⟨h, fun _ => nofun⟩
  rw [Cluster.hasName_of_targets (h.paired.targets_versionName htype (IndexType.otherVersion_mem version))]
  cases hother : c.indices.has (d.versionName type (otherVersion version)) with
  | false =>
      obtain ⟨hsettles, hstands⟩ := Cluster.Settles.point h htype hversion hthere hother hfree
      exact brings_updateAliases hclient (brings_releaseLock none fun r =>
        ⟨hsettles.inOrder, fun _ _ => ⟨hversion, hstands⟩⟩) fun e => ⟨h, fun _ => nofun⟩
  | true =>
      refine brings_aliasTargets hclient (fun targets htargets => ?_) fun e => ⟨h, fun _ => nofun⟩
      obtain ⟨hturned, hself⟩ := h.turn htype hversion hthere hfree htargets rfl
      refine brings_updateAliases hclient ?_ fun e => ⟨h, fun _ => nofun⟩
      refine brings_deleteIndex hclient hturned.candid (fun _ => ?_) fun e => ⟨hturned, fun _ => nofun⟩
      have hne : d.versionName type version ≠ d.versionName type (otherVersion version) := by
        rw [Ne, d.versionName_inj htype hversion htype (IndexType.otherVersion_mem version)]
        exact fun heq => IndexType.otherVersion_ne hversion heq.2.symm
      have hthere' := hturned.paired.target (d.indexName type) (d.versionName type version)
        (hself ▸ List.mem_singleton_self _)
      refine brings_releaseLock _ fun r => ⟨hturned.withoutIndex _, fun _ _ => ⟨hversion, ?_, ?_, ?_⟩⟩
      · exact Cluster.has_withoutIndex.mpr ⟨hthere', hne⟩
      · rw [Cluster.targets_withoutIndex_of_notMem, hself]
        rw [hself, List.mem_singleton]
        exact hne.symm
      · exact Bool.eq_false_iff.mpr fun hmem => (Cluster.has_withoutIndex.mp hmem).2 rfl

/-! ## Dropping -/

theorem keeps_deleteIndex (hclient : d.client = Cluster.client) (name : String) :
    Keeps (Cluster.InOrder d) (d.deleteIndex name) := by
  intro c hc
  rw [← bind_pure (d.deleteIndex name)]
  exact brings_deleteIndex hclient hc.candid (fun _ => Brings.pure (hc.withoutIndex name)) fun _ => hc

theorem keeps_indexExists (hclient : d.client = Cluster.client) (name : String) :
    Keeps (Cluster.InOrder d) (d.indexExists name) :=
  ((keptByDocuments_inOrder hclient).demandRaw rfl).map _

theorem keeps_aliasExists (hclient : d.client = Cluster.client) (name : String) :
    Keeps (Cluster.InOrder d) (d.aliasExists name) :=
  ((keptByDocuments_inOrder hclient).demandRaw rfl).map _

theorem keeps_removeIndex (hclient : d.client = Cluster.client) (name : String) :
    Keeps (Cluster.InOrder d) (d.removeIndex name) := by
  refine (keeps_indexExists hclient name).bind fun isThere => ?_
  split
  · exact (keeps_deleteIndex hclient name).bind fun _ => Keeps.pure _
  · exact Keeps.pure _

theorem keeps_clearName (hclient : d.client = Cluster.client) (name : String) :
    Keeps (Cluster.InOrder d) (d.clearName name) := by
  refine (keeps_indexExists hclient name).bind fun isThere => ?_
  split
  · refine (keeps_aliasExists hclient name).bind fun isAlias => ?_
    split
    · exact (keeps_deleteIndex hclient name).bind fun _ => Keeps.pure _
    · exact Keeps.pure _
  · exact Keeps.pure _

/-- Dropping both indices only removes what is there. -/
theorem keeps_drop (hclient : d.client = Cluster.client) : Keeps (Cluster.InOrder d) d.drop := by
  have hversions : ∀ type, Keeps (Cluster.InOrder d) (ForIn.forIn IndexType.versions PUnit.unit
      fun version _ => do
        d.removeIndex (d.versionName type version)
        return ForInStep.yield PUnit.unit) := fun type =>
    Keeps.forIn (fun version => (keeps_removeIndex hclient _).bind fun _ => Keeps.pure _) _
  have hdrop : ∀ type, Keeps (Cluster.InOrder d) (d.dropIndex type) := fun type =>
    (hversions type).bind fun _ => (keeps_clearName hclient _).bind fun _ =>
      Keeps.of_leaves (d.leaves_engine_releaseLock type)
  exact (Keeps.forIn (fun type => (hdrop type).bind fun _ => Keeps.pure _) _).bind fun _ => Keeps.pure _

end Deployment

end FactIndex
