import FactIndex.Proofs.Compile.Chain
import FactIndex.Proofs.Compile.Sense
import FactIndex.Proofs.Compile.Standing
import FactIndex.Proofs.Lookup.Named

/-!
# Compilations in hindsight

What a clause selects can be said when everything has its number and every stored list is in place. So a
compilation is judged from a world at its end: its steps are followed one by one, with the lookups made
so far, and what is said of a clause is said under the condition that no lookup finds more than it asks
for and that the digest tells the lookups apart.

## Main definitions

* `Deployment.lexicon`: what conditions mean, read off the world at the end.
* `Hindsight`: the world at the end with the meanings of concepts in it.
* `Hindsight.Kept`: what is known of the lookups so far.
* `Hindsight.Expresses`: a clause selects what is meant.
* `Hindsight.Comes`: what a step of a compilation comes to.
* `Hindsight.comes_read`, `Hindsight.comes_resolved`: conditions and lookups.
-/

namespace FactIndex

open FactIndex.Effect FactIndex.Digest FactIndex.Compiling

variable {σ α β : Type}

/-! ## What is known in the end -/

/-- Every document is found by its number, and no two have the same one. -/
structure Matching.Identifies (M : Matching) (docs : List (Int × Indexed)) : Prop where
  hasId : ∀ x ∈ docs, ∀ n, M.hasValue x.2 "_id" (.int n) = true ↔ n = x.1
  unique : ∀ x ∈ docs, ∀ y ∈ docs, x.1 = y.1 → x.2 = y.2

namespace Deployment

variable (d : Deployment σ)

/-- A condition on the values of a property, with its site. -/
def valueCondition (p : Property) (depth : Option Int) (item : Item) (comparator : Comparator)
    (property : Option Property) : Compiling σ ((String × List Int) × Condition.Matched) := do
  let site ← .act (d.propertySite p depth)
  return (site, ← d.propertyCondition p site.1 item comparator property)

/-- The field of a negated condition, where such conditions are noted. -/
def notedField (w : World σ) : Description → Option String
  | .someProperty p (.value item comparator property) depth =>
    if d.settings.query.negatedExists then
      ((d.valueCondition p depth item comparator property).read? w).bind fun found =>
        if found.2.negated then some (Field.inGroup found.1.1 found.2.array) else none
    else none
  | _ => none

/-- The clause of a property whose values are described by a condition alone. -/
def leafClause (p : Property) (depth : Option Int) : Description → Compiling σ (Option Json)
  | .value item comparator property =>
    d.compileProperty (fun _ _ _ => return none) [] none p depth (.value item comparator property)
  | .thing negated => d.compileProperty (fun _ _ _ => return none) [] none p depth (.thing negated)
  | _ => return none

/-- What conditions mean, with the numbers of a world. -/
def lexicon (w : World σ) (M : Matching) (docs : List (Int × Indexed)) : Lexicon where
  docs := docs
  links doc field n := M.hasValue doc field (.int n)
  field p := Field.inGroup (Field.group (w.catalog.number (.property p)).1) Field.numbers
  standing node := ((d.standingClause true node).read? w).map fun clause doc =>
    Clause.holds M doc clause
  condition p depth leaf := ((d.leafClause p depth leaf).read? w).join.map fun clause doc =>
    Clause.holds M doc clause
  noted := d.notedField w

end Deployment

/-- The world at the end of a compilation, with the documents and what concepts mean in it. -/
structure Hindsight (d : Deployment σ) where
  engine : ExactEngine d
  docs : List (Int × Indexed)
  world : World σ
  /-- What the concepts mean, by their hashes. -/
  meant : String → Sense
  interprets : (d.lexicon world engine.base docs).Interprets world.catalog.concepts meant
  isAcyclic : ∀ hash, ¬ Relation.TransGen (Concepts.RefersTo world.catalog.concepts) hash hash
  numbers : world.catalog.NumbersConcepts
  identifies : engine.base.Identifies docs
  isUsable : d.cache.IsUsable .waiting d.settings.subquery.lifetimeSeconds
  isUsableForConcepts : d.cache.IsUsable .waiting d.settings.subquery.conceptLifetimeSeconds

namespace Hindsight

variable {d : Deployment σ} (H : Hindsight d)

/-- What conditions mean in the end. -/
abbrev lexicon : Lexicon := d.lexicon H.world H.engine.base H.docs

/-- The numbers of the documents that are meant. -/
def collected (meant : Indexed → Bool) (n : Int) : Prop :=
  ∃ doc, (n, doc) ∈ H.docs ∧ meant doc = true

/-- The numbers of the members of a concept. -/
def members (hash : String) (n : Int) : Prop :=
  ∃ meant, H.meant hash = some meant ∧ H.collected meant n

/-- The numbers given so far are those of the end, and so far no lookup has found more than it asks for
and the digest tells the lookups apart. -/
structure Fine (s : World σ × Progress) : Prop where
  grows : s.1.catalog.Grows H.world.catalog
  fits : d.FitsWith H.world.catalog s.2.records

/-- What is known of the lookups so far: they are sound, and named by digests. -/
structure Kept (s : World σ × Progress) (made : List Settled) : Prop where
  sound : H.engine.Sound H.docs (H.Fine s) s.1 made
  concepts : s.1.catalog.concepts = H.world.catalog.concepts
  named : H.Fine s → ∀ a ∈ made, a.IsNamed H.world.catalog
    (d.digestedValues H.world.catalog s.2.records) H.members

/-- As long as the stored lists are there, a clause selects the documents that are meant. -/
def Means (made : List Settled) (clause : Json) (meant : Indexed → Bool) : Prop :=
  Clause.listed clause = [clause] ∧ ∀ s, H.engine.docs s = H.docs → H.engine.InPlace s made →
    ∀ x ∈ H.docs, Clause.holds (H.engine.matching s) x.2 clause = meant x.2

/-- There is a clause if there is a constraint, and it selects the documents that are meant. -/
def Expresses (made : List Settled) : Option Json → Sense → Prop :=
  Option.Rel (H.Means made)

variable {H} {made made' : List Settled} {clause : Json} {meant : Indexed → Bool}

theorem Means.mono (h : H.Means made clause meant) (hsub : made ⊆ made') :
    H.Means made' clause meant :=
  ⟨h.1, fun s hs hin => h.2 s hs (hin.of_subset hsub)⟩

theorem Expresses.mono {found : Option Json} {sense : Sense} (h : H.Expresses made found sense)
    (hsub : made ⊆ made') : H.Expresses made' found sense := by
  cases h with
  | none => exact .none
  | some h => exact .some (h.mono hsub)

/-- A clause that asks for no list means what it selects. -/
theorem means_of_isClosed (h : Clause.IsClosed clause) :
    H.Means made clause fun doc => Clause.holds H.engine.base doc clause :=
  ⟨h.listed, fun _ _ _ _ _ => h.selfContained _ _ _⟩

/-- A compound clause means what its members do together. -/
theorem means_compound {occur : Occur} {clauses : List Json}
    (h : ∀ s, H.engine.docs s = H.docs → H.engine.InPlace s made → ∀ x ∈ H.docs,
      Clause.holds (H.engine.matching s) x.2 (Clause.compound occur clauses) = meant x.2) :
    H.Means made (Clause.compound occur clauses) meant := ⟨rfl, h⟩

/-! ## The steps of a compilation -/

end Hindsight

/-- What a step leaves alone: the concepts that are being expanded, and the negated conditions outside
some positions of the tree. -/
structure Compiling.Within (scope : List Nat → Prop) (s t : World σ × Progress) : Prop where
  expanding : t.2.expanding = s.2.expanding
  negated : ∀ position, ¬ scope position → t.2.negated.get? position = s.2.negated.get? position

namespace Compiling.Within

variable {scope scope' scope'' : List Nat → Prop} {s t u : World σ × Progress}

theorem of_eq (hexpanding : t.2.expanding = s.2.expanding) (hnegated : t.2.negated = s.2.negated) :
    Within scope s t := ⟨hexpanding, fun _ _ => by rw [hnegated]⟩

theorem trans (h : Within scope s t) (h' : Within scope' t u)
    (hscope : ∀ position, scope position → scope'' position)
    (hscope' : ∀ position, scope' position → scope'' position) : Within scope'' s u where
  expanding := h'.expanding.trans h.expanding
  negated position hout := (h'.negated position fun hin => hout (hscope' position hin)).trans
    (h.negated position fun hin => hout (hscope position hin))

end Compiling.Within

/-- A computation notes no negated condition, and expands no concept. -/
abbrev Compiling.IsQuiet (x : Compiling σ α) : Prop :=
  Leaves (fun s : World σ × Progress => (s.2.expanding, s.2.negated)) x

namespace Hindsight

variable {d : Deployment σ} (H : Hindsight d)

/-- What a step comes to: a failure only if something is the case, and otherwise an answer, with the
lookups made by then. What is good about the answer is said for the end. -/
structure Comes (made : List Settled) (s : World σ × Progress) (scope : List Nat → Prop) (fails : Prop)
    (good : α → List Settled → World σ × Progress → Prop) (r : Except Failure α)
    (t : World σ × Progress) : Prop where
  fails : ∀ e, r = .error e → fails
  answers : ∀ a, r = .ok a → ∃ made', made ⊆ made' ∧ H.Kept t made' ∧ Within scope s t ∧
    (H.Fine t → H.Fine s ∧ good a made' t)

variable {H} {made : List Settled} {s : World σ × Progress} {scope scope' scope'' : List Nat → Prop}
  {fails : Prop} {good : α → List Settled → World σ × Progress → Prop}
  {good' : β → List Settled → World σ × Progress → Prop}

theorem Comes.pure {a : α} (h : H.Kept s made) (hgood : H.Fine s → good a made s) :
    (Pure.pure a : Compiling σ α).Meets s (H.Comes made s scope fails good) := by
  refine Meets.pure ⟨nofun, ?_⟩
  rintro _ ⟨⟩
  exact ⟨made, List.Subset.refl _, h, .of_eq rfl rfl, fun hfine => ⟨hfine, hgood hfine⟩⟩

/-- One step after the other. -/
theorem Comes.bind {x : Compiling σ α} {f : α → Compiling σ β}
    (hx : x.Meets s (H.Comes made s scope fails good))
    (hscope : ∀ position, scope position → scope'' position)
    (hscope' : ∀ position, scope' position → scope'' position)
    (hf : ∀ a made' t, made ⊆ made' → H.Kept t made' → Within scope s t →
      (H.Fine t → H.Fine s ∧ good a made' t) → (f a).Meets t (H.Comes made' t scope' fails good')) :
    (x >>= f).Meets s (H.Comes made s scope'' fails good') := by
  refine Meets.bind hx ?_ fun e t he => ⟨fun e' he' => he.fails e rfl, nofun⟩
  intro a t ha
  obtain ⟨made', hsub, hkept, hwithin, hgood⟩ := ha.answers a rfl
  refine (hf a made' t hsub hkept hwithin hgood).mono fun r u hr => ⟨hr.fails, ?_⟩
  rintro b rfl
  obtain ⟨made'', hsub', hkept', hwithin', hgood'⟩ := hr.answers b rfl
  refine ⟨made'', List.Subset.trans hsub hsub', hkept', hwithin.trans hwithin' hscope hscope', fun hfine => ?_⟩
  obtain ⟨hfine', hb⟩ := hgood' hfine
  exact ⟨(hgood hfine').1, hb⟩

/-- A first step that notes nothing. -/
theorem Comes.bind_quiet {x : Compiling σ α} {f : α → Compiling σ β}
    (hx : x.Meets s (H.Comes made s (fun _ => False) fails good))
    (hf : ∀ a made' t, made ⊆ made' → H.Kept t made' → Within (fun _ => False) s t →
      (H.Fine t → H.Fine s ∧ good a made' t) → (f a).Meets t (H.Comes made' t scope fails good')) :
    (x >>= f).Meets s (H.Comes made s scope fails good') :=
  Comes.bind hx (fun _ => False.elim) (fun _ h => h) hf

/-- A last step that notes nothing. -/
theorem Comes.bind_to_quiet {x : Compiling σ α} {f : α → Compiling σ β}
    (hx : x.Meets s (H.Comes made s scope fails good))
    (hf : ∀ a made' t, made ⊆ made' → H.Kept t made' → Within scope s t →
      (H.Fine t → H.Fine s ∧ good a made' t) →
        (f a).Meets t (H.Comes made' t (fun _ => False) fails good')) :
    (x >>= f).Meets s (H.Comes made s scope fails good') :=
  Comes.bind hx (fun _ h => h) (fun _ => False.elim) hf

theorem Comes.mono {x : Compiling σ α} {good₂ : α → List Settled → World σ × Progress → Prop}
    (hx : x.Meets s (H.Comes made s scope fails good))
    (hscope : ∀ position, scope position → scope' position)
    (h : ∀ a made' t, made ⊆ made' → Within scope s t → H.Fine s → H.Fine t → good a made' t →
      good₂ a made' t) :
    x.Meets s (H.Comes made s scope' fails good₂) := by
  refine Meets.mono hx fun r t hr => ⟨hr.fails, fun a ha => ?_⟩
  obtain ⟨made', hsub, hkept, hwithin, hgood⟩ := hr.answers a ha
  exact ⟨made', hsub, hkept, ⟨hwithin.expanding, fun position hout =>
    hwithin.negated position fun hin => hout (hscope position hin)⟩, fun hfine =>
      ⟨(hgood hfine).1, h a made' t hsub hwithin (hgood hfine).1 hfine (hgood hfine).2⟩⟩

/-- More places may be noted. -/
theorem Comes.widen {x : Compiling σ α} (hx : x.Meets s (H.Comes made s scope fails good))
    (hscope : ∀ position, scope position → scope' position) :
    x.Meets s (H.Comes made s scope' fails good) :=
  Comes.mono hx hscope fun _ _ _ _ _ _ _ => id

/-- A result that is there already. -/
theorem Comes.ofExcept {r : Except Failure α} (h : H.Kept s made) (hfails : ∀ e, r = .error e → fails) :
    (Effect.ofExcept r : Compiling σ α).Meets s
      (H.Comes made s scope fails fun a _ _ => r = .ok a) := by
  refine Meets.ofExcept ⟨hfails, ?_⟩
  rintro a rfl
  exact ⟨made, List.Subset.refl _, h, .of_eq rfl rfl, fun hfine => ⟨hfine, rfl⟩⟩

/-! ## Steps that make no lookup -/

/-- More has a number, and something was noted. -/
theorem Kept.of_catalog {t : World σ × Progress} {c : Catalog} (h : H.Kept s made)
    (hworld : t.1 = { s.1 with catalog := c }) (hgrows : s.1.catalog.Grows c)
    (hrecords : t.2.records = s.2.records) : H.Kept t made ∧ (H.Fine t → H.Fine s) := by
  have hfine : H.Fine t → H.Fine s := fun ht => by
    have hc := ht.grows
    have hfits := ht.fits
    rw [hworld] at hc
    rw [hrecords] at hfits
    exact ⟨hgrows.trans hc, hfits⟩
  refine ⟨⟨?_, ?_, fun ht => ?_⟩, hfine⟩
  · have hsound : H.engine.Sound H.docs (H.Fine s) { s.1 with catalog := c } made :=
      h.sound.congr (kept_congr rfl rfl) rfl
    rw [hworld]
    exact hsound.mono hfine
  · rw [hworld, ← h.concepts]
    exact hgrows.concepts
  · rw [hrecords]
    exact h.named (hfine ht)

/-- What a computation on the catalog answers is read off the world at the end. -/
theorem comes_read {x y : Compiling σ α} {P : α → Prop} (hrepeated : RepeatedBy x y)
    (hanswers : Answers x fails P) (hwithin : ∀ s, Within scope s (x.outcome s).2)
    (h : H.Kept s made) : x.Meets s (H.Comes made s scope fails fun a _ t =>
      y.read? H.world = some a ∧ P a ∧ x.outcome s = (.ok a, t)) := by
  obtain ⟨c, hworld, hgrows⟩ := hrepeated.touches s
  obtain ⟨hkept, hfine⟩ := h.of_catalog hworld hgrows (hrepeated.records s)
  refine ⟨fun e he => hanswers.fails s e he, fun a ha => ⟨made, List.Subset.refl _, hkept, hwithin s,
    fun ht => ⟨hfine ht, hrepeated.read ha ht.grows, hanswers.good s a ha, Prod.ext ha rfl⟩⟩⟩

/-- Something is noted apart from lookups and expansions. -/
theorem comes_note {g : Progress → Progress} (h : H.Kept s made)
    (hrecords : ∀ p, (g p).records = p.records) (hexpanding : ∀ p, (g p).expanding = p.expanding)
    (hnegated : ∀ p position, ¬ scope position → (g p).negated.get? position = p.negated.get? position) :
    (Compiling.note g : Compiling σ Unit).Meets s (H.Comes made s scope fails fun _ _ _ => True) := by
  obtain ⟨hkept, hfine⟩ := h.of_catalog (t := (s.1, g s.2)) (c := s.1.catalog) rfl
    (Catalog.Grows.refl _) (hrecords s.2)
  refine ⟨nofun, fun _ _ => ⟨made, List.Subset.refl _, hkept, ⟨hexpanding _, hnegated _⟩,
    fun ht => ⟨hfine ht, trivial⟩⟩⟩

/-- A visit fails only for a time without a label. -/
theorem comes_visit {node : Description} (h : H.Kept s made)
    (hfails : ∀ t ∈ node.times, ¬ Description.IsLegible t → fails) :
    (d.visit node).Meets s (H.Comes made s scope fails fun _ _ _ => True) := by
  unfold Deployment.visit
  split
  · refine Comes.bind_quiet (Comes.ofExcept h fun e he => ?_) fun portrait made' t _ hkept _ _ =>
      comes_note hkept (fun _ => rfl) (fun _ => rfl) fun _ _ _ => rfl
    by_contra hno
    have hportrait : ∃ ms, node.portrait = .ok ms :=
      (Description.isOk_portrait node).mpr fun t ht => by
        by_contra hlabel
        exact hno (hfails t ht fun hlegible => hlabel hlegible.2)
    rw [he] at hportrait
    obtain ⟨ms, hms⟩ := hportrait
    cases hms
  · exact Comes.pure h fun _ => trivial

/-- The text of a description fails only for a time without a label. -/
theorem comes_queryText {node : Description} (h : H.Kept s made)
    (hfails : ∀ t ∈ node.times, ¬ Description.IsLegible t → fails) :
    (Effect.ofExcept node.queryText : Compiling σ String).Meets s
      (H.Comes made s scope fails fun text _ _ => node.queryText = .ok text) := by
  refine Comes.ofExcept h fun e he => ?_
  obtain ⟨t, ht, hlegible⟩ := Description.exists_illegible
    (show ¬ ∃ text, node.queryText = .ok text by simp [he])
  exact hfails t ht hlegible

/-! ## Lookups -/

/-- The document has in a field the number of one that is meant. -/
def pointing (H : Hindsight d) (field : String) (meant : Indexed → Bool) (doc : Indexed) : Bool :=
  H.docs.any fun x => meant x.2 && H.engine.base.hasValue doc field (.int x.1)

/-- The clause of a lookup asks for the documents that the query of the lookup means, if the lookup has a
name of its own. -/
theorem comes_resolved (h : H.Kept s made) {seconds : Float}
    (hcache : d.cache.IsUsable .waiting seconds) {l : Lookup} {query source : Json}
    (hbody : l.body = d.lookupBody query source) (hfield : l.field = none)
    (hlifetime : l.lifetime = seconds) {meant : Indexed → Bool}
    (hmeans : H.Fine s → H.engine.AmountsTo H.docs made query (H.collected meant))
    (field : String) {name : String} (hname : name ≠ "count") (title : String)
    (hnamed : H.Fine s → ∀ record isStored, Settled.IsNamed H.world.catalog
      (d.digestedValues H.world.catalog (s.2.records ++
        [[(name, .str title), ("query", .obj l.body)] ++ record])) H.members
      ⟨l, H.collected meant, isStored⟩) :
    (Compiling.lookUp (d.resolved l field name title)).Meets s
      (H.Comes made s scope fails fun clause made' _ =>
        H.Means made' clause (H.pointing field meant)) := by
  obtain ⟨count, numbers, record, after, isStored, hresolve, hcount, hcatalog, hsound⟩ :=
    h.sound.exists_resolve hcache hbody hfield hlifetime hmeans
  let found : Resolved := ⟨d.hasNumber field (numbers.toJson (d.indexName IndexType.lookup)),
    [(name, .str title), ("query", .obj l.body)] ++ record⟩
  have hlookup : (d.resolved l field name title).outcome s.1 = (.ok found, after) := by
    unfold Deployment.resolved
    rw [outcome_bind_of_ok hresolve]
    rfl
  let t : World σ × Progress := (after, { s.2 with records := s.2.records ++ [found.record] })
  have hrun : (Compiling.lookUp (d.resolved l field name title)).outcome s = (.ok found.clause, t) :=
    outcome_lookUp_of_ok hlookup
  have hcounted : Table.get? found.record "count" = some (.int count) := by
    rw [← hcount]
    show Table.get? ((name, Json.str title) :: ("query", Json.obj l.body) :: record) "count" = _
    rw [Table.get?_cons, Table.get?_cons, if_neg hname, if_neg (by decide)]
  have hfine : H.Fine t → H.Fine s := fun ht => by
    have hgrows : after.catalog.Grows H.world.catalog := ht.grows
    rw [hcatalog] at hgrows
    exact ⟨hgrows, ht.fits.of_append⟩
  have hold : H.Fine t → ∀ a ∈ made, a.IsNamed H.world.catalog
      (d.digestedValues H.world.catalog (s.2.records ++ [found.record])) H.members :=
    fun ht a ha => (h.named (hfine ht) a ha).mono fun v hv =>
      Deployment.mem_digestedValues_append hv found.record
  let b : Settled := ⟨l, H.collected meant, isStored⟩
  have hnew := fun ht : H.Fine t => hnamed (hfine ht) record isStored
  obtain ⟨hsound', hdenotes⟩ := hsound (H.Fine t) hfine
    (fun ht => ht.fits.count found.record (List.mem_append_right _ (List.mem_singleton_self _)) count
      hcounted)
    fun ht a ha hshared => (Settled.IsNamed.eq_of_shared H.numbers ht.fits.apart (hold ht a ha)
      (hnew ht) hshared).elim (fun hsame => h.sound.result_eq (hfine ht) ha
        (hsame.trans hbody) (hmeans (hfine ht))) id
  unfold Meets
  rw [hrun]
  refine ⟨nofun, ?_⟩
  rintro _ ⟨⟩
  refine ⟨made ++ [b], List.subset_append_left _ _, ⟨hsound', ?_, fun ht => ?_⟩, .of_eq rfl rfl,
    fun ht => ⟨hfine ht, ?_, fun state _ hin x _ => ?_⟩⟩
  · exact (congrArg Catalog.concepts hcatalog).trans h.concepts
  · refine List.forall_mem_append.mpr ⟨hold ht, ?_⟩
    intro a ha
    rw [List.mem_singleton.mp ha]
    exact hnew ht
  · exact Deployment.listed_hasNumber field numbers
  · rw [Bool.eq_iff_iff, H.engine.holds_hasNumber (hdenotes ht state hin)]
    unfold pointing
    rw [List.any_eq_true]
    constructor
    · rintro ⟨n, ⟨doc, hmem, hmeant⟩, hvalue⟩
      exact ⟨(n, doc), hmem, by simp [hmeant, hvalue]⟩
    · rintro ⟨⟨n, doc⟩, hmem, hboth⟩
      rw [Bool.and_eq_true] at hboth
      exact ⟨n, ⟨doc, hmem, hboth.1⟩, hboth.2⟩

end Hindsight

end FactIndex
