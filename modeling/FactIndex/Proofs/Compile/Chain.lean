import FactIndex.Proofs.Compile.Again
import FactIndex.Proofs.Compile.Disjunction
import FactIndex.Proofs.Lookup.Apart
import FactIndex.Proofs.Lookup.Exact
import FactIndex.Proofs.Lookup.Settled

/-!
# Chains of properties are joins

A chain of properties is compiled from its end. What the end selects is looked up, and the numbers that
were found are asked for in the field of the property before it, and so on. The lookups run one after
the other, so by induction on the chain its clause selects what the documents are joined with at the
end, if no lookup finds more than it asks for and the digest tells the lookups apart.

## Main definitions

* `Description.chained`: a chain of properties.
* `Joins`: documents that are joined, from the first to the last.
* `Deployment.Fits`: what is asked of the lookups, in terms of their records.
* `ExactEngine.Reached`: what holds when a part of a chain has been compiled.
* `Deployment.compile_chain`: what a chain selects.
-/

namespace FactIndex

open FactIndex.Effect FactIndex.Calendar FactIndex.Digest

variable {σ : Type}

namespace Description

/-- A chain of direct properties in front of a description, each with the depth of its hierarchy. -/
def chained : List (Property × Option Int) → Description → Description
  | [], last => last
  | link :: links, last => .someProperty link.1 (chained links last) link.2

theorem times_chained (links : List (Property × Option Int)) (last : Description) :
    (chained links last).times = last.times := by
  induction links with
  | nil => rfl
  | cons link links ih => exact ih

/-- In front of a property there are only properties. -/
theorem exists_chained (links : List (Property × Option Int)) (p : Property) (leaf : Description)
    (depth : Option Int) : ∃ q inner qdepth,
      chained links (.someProperty p leaf depth) = .someProperty q inner qdepth := by
  cases links with
  | nil => exact ⟨p, leaf, depth, rfl⟩
  | cons link links => exact ⟨_, _, _, rfl⟩

/-- A time can be compared and written. -/
def IsLegible (t : Time) : Prop :=
  (∃ x, TimeOf.dayNumber t = .ok x) ∧ ∃ s, Time.label t = .ok s

end Description

/-- The field of the numbers of a property. -/
def Catalog.linkField? (c : Catalog) (p : Property) : Option String :=
  (c.numberOf? (.property p)).map fun n => Field.inGroup (Field.group n) Field.numbers

theorem Catalog.Grows.linkField? {c c' : Catalog} (h : c.Grows c') {p : Property} {field : String}
    (hfield : c.linkField? p = some field) : c'.linkField? p = some field := by
  obtain ⟨n, hn, rfl⟩ := Option.map_eq_some_iff.mp hfield
  exact Option.map_eq_some_iff.mpr ⟨n, h.numbers _ n hn, rfl⟩

/-- A document has the number of another one in a field, which has that of a third one in the next
field, and so on to the last one, of which something holds. -/
def Joins (M : Matching) (docs : List (Int × Indexed)) (last : Indexed → Prop) :
    List String → Indexed → Prop
  | [], doc => last doc
  | field :: fields, doc => ∃ n next, (n, next) ∈ docs ∧ M.hasValue doc field (.int n) = true ∧
    Joins M docs last fields next

/-- None of the recorded lookups has found more than it asks for, and the digest tells them apart. -/
structure Deployment.Fits (d : Deployment σ) (records : List Members) : Prop where
  count : ∀ record ∈ records, ∀ n, Table.get? record "count" = some (.int n) →
    n ≤ d.settings.subquery.size
  apart : Digest.TellsApart (records.flatMap fun record =>
    ((Table.get? record "query").map d.digested).getD [])

theorem Deployment.Fits.of_append {d : Deployment σ} {records : List Members} {record : Members}
    (h : d.Fits (records ++ [record])) : d.Fits records where
  count r hr := h.count r (List.mem_append_left _ hr)
  apart := h.apart.mono fun text htext => by
    rw [List.flatMap_append]
    exact List.mem_append_left _ htext

/-! ## The steps of a chain -/

/-- A lookup is of a member of a chain, and a record tells of its query. -/
def Deployment.Recorded (d : Deployment σ) (last : Json) (a : Settled) (record : Members) : Prop :=
  ∃ clause, d.IsMember last clause ∧ a.lookup = d.chainLookup clause ∧
    Table.get? record "query" = some (.obj a.lookup.body)

namespace ExactEngine

variable {d : Deployment σ} (E : ExactEngine d)

/-- A document is joined, by way of some fields, with one that the clause at the end selects. -/
def JoinsLast (docs : List (Int × Indexed)) (last : Json) (fields : List String) (doc : Indexed) :
    Prop :=
  Joins E.base docs (fun doc => Clause.holds E.base doc last = true) fields doc

/-- The numbers of the documents that are joined with one at the end. -/
def Joined (docs : List (Int × Indexed)) (last : Json) (fields : List String) (n : Int) : Prop :=
  ∃ doc, (n, doc) ∈ docs ∧ E.JoinsLast docs last fields doc

/-- A part of a chain has been compiled: the lookups so far are sound and recorded, and the clause
selects what is joined with the end. -/
structure Reached (docs : List (Int × Indexed)) (last : Json) (fields : List String) (clause : Json)
    (s : World σ × Progress) (made : List Settled) : Prop where
  sound : E.Sound docs (d.Fits s.2.records) s.1 made
  recorded : List.Forall₂ (d.Recorded last) made s.2.records
  isMember : d.IsMember last clause
  selects : d.Fits s.2.records → ∀ state, E.docs state = docs → E.InPlace state made → ∀ doc,
    Clause.holds (E.matching state) doc clause = true ↔ E.JoinsLast docs last fields doc

variable {E} {docs : List (Int × Indexed)} {last clause : Json} {fields : List String}
  {s : World σ × Progress} {made : List Settled}

/-- A member of a chain is a clause and no list. -/
theorem listed_of_isMember (hlast : ∃ body, last = .single "bool" body) (h : d.IsMember last clause) :
    Clause.listed clause = [clause] := by
  rcases h with rfl | ⟨field, numbers, rfl⟩
  · obtain ⟨body, rfl⟩ := hlast
    rfl
  · exact Deployment.listed_hasNumber field numbers

/-- What is looked up is what is joined with the end. -/
theorem Reached.amountsTo (h : E.Reached docs last fields clause s made)
    (hlast : ∃ body, last = .single "bool" body) (constantScore : Bool) (hfits : d.Fits s.2.records) :
    E.AmountsTo docs made (Deployment.wrapped clause constantScore) (E.Joined docs last fields) := by
  intro state hstate hin n
  unfold Selected
  rw [hstate]
  refine exists_congr fun doc => and_congr_right fun _ => ?_
  rw [Deployment.holds_wrapped_clause (listed_of_isMember hlast h.isMember)]
  exact h.selects hfits state hstate hin doc

/-- Recorded lookups with the same key or the same document are the same. -/
theorem lookup_eq_of_shared {records : List Members} {record : Members} {l : Settled}
    (hlast : ∃ body, last = .single "bool" body)
    (hrecorded : List.Forall₂ (d.Recorded last) made records) (hrecord : d.Recorded last l record)
    (hfits : d.Fits (records ++ [record])) : ∀ a ∈ made,
      a.lookup.keyText = l.lookup.keyText ∨ a.lookup.id = l.lookup.id → a.lookup = l.lookup := by
  intro a ha hshared
  obtain ⟨body, hbody⟩ := hlast
  have htexts : ∀ {b r}, d.Recorded last b r → r ∈ records ++ [record] → ∀ text ∈ d.digested
      (.obj b.lookup.body), text ∈ (records ++ [record]).flatMap fun record =>
        ((Table.get? record "query").map d.digested).getD [] := by
    rintro b r ⟨-, -, -, hquery⟩ hr text htext
    refine List.mem_flatMap.mpr ⟨r, hr, ?_⟩
    rwa [hquery]
  obtain ⟨r, hr, har⟩ : ∃ r ∈ records, d.Recorded last a r := by
    clear hfits htexts
    induction hrecorded with
    | nil => cases ha
    | cons hbr _ ih =>
        rcases List.mem_cons.mp ha with rfl | ha
        · exact ⟨_, List.mem_cons_self, hbr⟩
        · obtain ⟨r, hr, har⟩ := ih ha
          exact ⟨r, List.mem_cons_of_mem _ hr, har⟩
  have hleft := htexts har (List.mem_append_left _ hr)
  have hright := htexts hrecord (List.mem_append_right _ (List.mem_singleton_self _))
  obtain ⟨clause, hmember, hlookup, -⟩ := har
  obtain ⟨clause', hmember', hlookup', -⟩ := hrecord
  rw [hlookup] at hleft hshared ⊢
  rw [hlookup'] at hright hshared ⊢
  exact Deployment.chainLookup_eq_of_shared hbody hfits.apart hmember hmember' hleft hright hshared

/-- One more link: what was reached is looked up, and asked for in the field of the property before. -/
theorem Reached.linked
    (hcache : d.cache.IsUsable .waiting d.settings.subquery.lifetimeSeconds)
    (h : E.Reached docs last fields clause s made) (hlast : ∃ body, last = .single "bool" body)
    (field : String) (p : Property) (whole : Description) :
    (d.linked (some field) p whole (some clause)).Meets s fun r t =>
      (∀ e, r = .error e → ¬ ∃ text, whole.queryText = .ok text) ∧
      ∀ found, r = .ok found → t.1.catalog = s.1.catalog ∧ ∃ clause' made',
        found = some clause' ∧ E.Reached docs last (field :: fields) clause' t made' := by
  unfold Deployment.linked
  dsimp only
  refine Meets.ofExcept_bind ?_ ?_
  · intro text htext
    let l := d.chainLookup clause
    obtain ⟨count, numbers, record, after, isStored, hresolve, hcount, hcatalog, hsound⟩ :=
      h.sound.exists_resolve hcache (l := l) rfl rfl rfl
        fun hfits => h.amountsTo hlast d.settings.subquery.constantScore hfits
    let found : Resolved := ⟨d.hasNumber field (numbers.toJson (d.indexName IndexType.lookup)),
      [("lookup_query", .str (p.key ++ " → " ++ text)), ("query", .obj l.body)] ++ record⟩
    have hlookup : (d.lookupChain p text field clause).outcome s.1 = (.ok found, after) := by
      unfold Deployment.lookupChain Deployment.resolved
      rw [outcome_bind_of_ok hresolve]
      rfl
    have hrun := Compiling.outcome_lookUp_of_ok hlookup
    refine Meets.bind_of_ok hrun (Meets.pure ⟨by rintro _ ⟨⟩, ?_⟩)
    rintro _ ⟨⟩
    have hrecorded : d.Recorded last ⟨l, E.Joined docs last fields, isStored⟩ found.record :=
      ⟨clause, h.isMember, rfl, rfl⟩
    have hcounted : Table.get? found.record "count" = some (.int count) := by
      rw [← hcount]
      simp [found, Table.get?]
    have hmem : found.record ∈ s.2.records ++ [found.record] :=
      List.mem_append_right _ (List.mem_singleton_self _)
    have hapart := lookup_eq_of_shared hlast h.recorded hrecorded
    obtain ⟨hsound', hdenotes⟩ := hsound (d.Fits (s.2.records ++ [found.record]))
      (fun hfits => hfits.of_append) (fun hfits => hfits.count found.record hmem count hcounted)
      fun hfits a ha hshared => h.sound.result_eq hfits.of_append ha
        (congrArg Lookup.body (hapart hfits a ha hshared))
        (h.amountsTo hlast d.settings.subquery.constantScore hfits.of_append)
    refine ⟨hcatalog, _, made ++ [⟨l, E.Joined docs last fields, isStored⟩], rfl, hsound', ?_,
      .inr ⟨field, numbers, rfl⟩, ?_⟩
    · exact List.rel_append h.recorded (.cons hrecorded .nil)
    · intro hfits state hstate hin doc
      rw [E.holds_hasNumber (hdenotes hfits state hin)]
      constructor
      · rintro ⟨n, ⟨next, hnext, hjoins⟩, hvalue⟩
        exact ⟨n, next, hnext, hvalue, hjoins⟩
      · rintro ⟨n, next, hnext, hvalue, hjoins⟩
        exact ⟨n, ⟨next, hnext, hjoins⟩, hvalue⟩
  · intro e he
    refine ⟨fun _ _ hsome => ?_, by rintro _ ⟨⟩⟩
    obtain ⟨text, htext⟩ := hsome
    rw [he] at htext
    cases htext

end ExactEngine

/-! ## The traversal of a chain -/

namespace Deployment

open Compiling

variable (d : Deployment σ)

theorem linked_none (p : Property) (whole : Description) (clause : Option Json) :
    d.linked none p whole clause = pure clause := by
  cases clause <;> rfl

/-- As a member of a chain, a condition on a property is looked up in the end. -/
theorem compileProperty_linked (expand : Expansion σ) (path : List Nat) (chain : Option String)
    (p : Property) (depth : Option Int) (inner : Description) :
    d.compileProperty expand path chain p depth inner =
      d.compileProperty expand path none p depth inner >>=
        d.linked chain p (.someProperty p inner depth) := by
  have hpure : ∀ (p : Property) (whole : Description),
      d.linked none p whole = (pure : Option Json → Compiling σ (Option Json)) :=
    fun p whole => funext fun clause => d.linked_none p whole clause
  cases inner with
  | someProperty q inner qdepth =>
      cases inner <;> simp only [compileProperty, hpure, bind_assoc, bind_pure]
  | conjunction | disjunction | category | concept | space | value | thing =>
      simp only [compileProperty, hpure, bind_assoc, bind_pure, pure_bind]

variable {d} in
/-- A direct property in front of another one asks for its objects and nothing else. -/
theorem chainClause_direct {p : Property} (hdirect : p.inverse = false) (field : String)
    (rest : Description) :
    d.chainClause p field rest = (pure : Option Json → Compiling σ (Option Json)) := by
  refine funext fun clause => ?_
  cases clause with
  | none => rfl
  | some clause =>
      unfold chainClause
      rw [hdirect]
      rfl

/-- A direct property in front of another one asks for what has been looked up of that. -/
theorem compileProperty_chained (expand : Expansion σ) (path : List Nat) {p q : Property}
    (depth qdepth : Option Int) {inner : Description} (hdirect : p.inverse = false)
    (hinner : ∀ ds, inner ≠ .disjunction ds) :
    d.compileProperty expand path none p depth (.someProperty q inner qdepth) =
      act (d.propertySite p depth) >>= fun site =>
        d.compileProperty expand (path ++ [0]) none q qdepth inner >>=
          d.linked (some (Field.inGroup site.1 Field.numbers)) q (.someProperty q inner qdepth) := by
  rw [compileProperty]
  · refine congrArg (act (d.propertySite p depth) >>= ·) (funext fun site => ?_)
    dsimp only
    rw [compileProperty_linked, chainClause_direct hdirect]
    simp only [linked_none, bind_pure]
  · exact hinner

/-- A property has a number from then on. -/
theorem exists_propertySite (p : Property) (depth : Option Int) (w : World σ) :
    ∃ site c, (d.propertySite p depth).outcome w = (.ok site, { w with catalog := c }) ∧
      w.catalog.Grows c ∧ c.linkField? p = some (Field.inGroup site.1 Field.numbers) := by
  have hsite := d.repeatedBy_propertySite p depth
  have hbelow := repeatedBy_below (σ := σ) (.property p) (d.depthOf depth)
  let numbered : World σ := { w with catalog := (w.catalog.number (.property p)).2 }
  have hnumber : (numberOf (.property p)).outcome w =
      (.ok (w.catalog.number (.property p)).1, numbered) := rfl
  have hgrows := hbelow.grows (numbered, {})
  rcases hr : (d.propertySite p depth).outcome w with ⟨e | site, after⟩
  · have hanswers : Answers (d.propertySite p depth) False _ := d.answers_propertySite p depth
    exact (hanswers.fails w e (by rw [hr])).elim
  · obtain ⟨c, hw, hc⟩ := hsite.touches (w, {})
    rw [outcome_act, hr] at hw
    refine ⟨site, c, by rw [← hw], hc, ?_⟩
    unfold propertySite at hr
    rw [outcome_bind_of_ok hnumber] at hr
    obtain ⟨lower, t, ht, hr⟩ := exists_of_bind_ok hr
    cases hr
    dsimp only at hw
    rw [outcome_act, ht, hw] at hgrows
    exact hgrows.linkField? (Option.map_eq_some_iff.mpr
      ⟨_, w.catalog.get?_number (.property p), rfl⟩)

/-- Whatever is recorded of a visit, it says nothing of lookups. -/
theorem exists_visit {node : Description}
    (h : d.settings.query.nodeLog = true → ∃ ms, node.portrait = .ok ms) (s : World σ × Progress) :
    ∃ progress : Progress, (d.visit node).outcome s = (.ok (), (s.1, progress)) ∧
      progress.records = s.2.records := by
  unfold visit
  split
  · rename_i hlog
    obtain ⟨ms, hms⟩ := h hlog
    rw [hms]
    exact ⟨_, rfl, rfl⟩
  · exact ⟨_, rfl, rfl⟩

/-- A condition on a property is compiled from what has come to light by the visit to it. -/
theorem exists_start {p : Property} {inner : Description} {depth : Option Int}
    (h : d.settings.query.nodeLog = true →
      ∃ ms, (Description.someProperty p inner depth).portrait = .ok ms) (isMember : Bool) (w : World σ) :
    ∃ start : Progress, start.records = [] ∧ (d.compile isMember (.someProperty p inner depth)).outcome w =
      let (r, t) := (d.compileProperty (d.expandConcept (w.catalog.concepts.length + 1)) [] none p depth
        inner).outcome (w, start)
      (r.map fun clause => (clause, t.2), t.1) := by
  obtain ⟨start, hvisit, hrecords⟩ := d.exists_visit h (w, {})
  refine ⟨start, hrecords, ?_⟩
  rw [outcome_compile, compileNode, outcome_bind_of_ok hvisit]

/-- The clause at the end of a chain asks for no list, and is the same wherever and whenever the end is
compiled again. -/
structure IsEnd (p : Property) (depth : Option Int) (leaf : Description) (last : Json)
    (c : Catalog) : Prop where
  selfContained : Clause.IsSelfContained last
  compound : ∃ body, last = .single "bool" body
  again : ∀ (expand : Expansion σ) path s, c.Grows s.1.catalog →
    ((d.compileProperty expand path none p depth leaf).outcome s).1 = .ok (some last)

variable {d}

/-- Compiling the last property on its own comes to the clause at the end of the chain. -/
theorem IsEnd.compile {p : Property} {depth : Option Int} {leaf : Description} {last : Json}
    {w : World σ} (h : d.IsEnd p depth leaf last w.catalog) (hportrait : d.settings.query.nodeLog = true →
      ∃ ms, (Description.someProperty p leaf depth).portrait = .ok ms) :
    ∃ progress, ((d.compile false (.someProperty p leaf depth)).outcome w).1 =
      .ok (some last, progress) := by
  obtain ⟨start, -, hstart⟩ := d.exists_start hportrait false w
  have hlast := h.again (d.expandConcept (w.catalog.concepts.length + 1)) [] (w, start) (.refl _)
  rw [hstart]
  dsimp only
  rw [hlast]
  exact ⟨_, rfl⟩

end Deployment

/-- A description has a text unless one of its times has no label. -/
theorem Description.exists_illegible {node : Description} (h : ¬ ∃ text, node.queryText = .ok text) :
    ∃ t ∈ node.times, ¬ IsLegible t := by
  rw [queryText, isOk_textAt] at h
  simp only [not_forall] at h
  obtain ⟨t, ht, hlabel⟩ := h
  exact ⟨t, ht, fun hlegible => hlabel hlegible.2⟩

namespace ExactEngine

variable {d : Deployment σ} {E : ExactEngine d} {docs : List (Int × Indexed)} {p : Property}
  {leaf : Description} {depth : Option Int}

/-- What a part of a chain comes to: nothing for a time that cannot be compared or written, and otherwise
a clause that selects what is joined with the end. -/
def Comes (E : ExactEngine d) (docs : List (Int × Indexed)) (links : List (Property × Option Int))
    (p : Property) (depth : Option Int) (leaf : Description) (c : Catalog)
    (r : Except Failure (Option Json)) (t : World σ × Progress) : Prop :=
  (∀ e, r = .error e → ∃ time ∈ leaf.times, ¬ Description.IsLegible time) ∧
  ∀ found, r = .ok found → c.Grows t.1.catalog ∧ ∃ clause last fields made, found = some clause ∧
    E.Reached docs last fields clause t made ∧ d.IsEnd p depth leaf last t.1.catalog ∧
    links.map (fun link => t.1.catalog.linkField? link.1) = fields.map some

/-- The end of a chain, where no lookup has been made so far. -/
theorem comes_leaf (hdirect : p.inverse = false) (hleaf : leaf.IsLeaf) (expand : Deployment.Expansion σ)
    (path : List Nat) {s : World σ × Progress} (hsound : E.Sound docs (d.Fits s.2.records) s.1 [])
    (hrecords : s.2.records = []) : (d.compileProperty expand path none p depth leaf).Meets s
      (E.Comes docs [] p depth leaf s.1.catalog) := by
  have hanswers := d.answers_property hdirect hleaf expand path depth
  have hrepeated := fun expand' path' =>
    d.repeatedBy_property hdirect hleaf expand expand' path path' depth
  rcases hr : (d.compileProperty expand path none p depth leaf).outcome s with ⟨r, t⟩
  unfold Meets
  rw [hr]
  constructor
  · rintro e rfl
    obtain ⟨time, htime, hday⟩ := hanswers.fails s e (by rw [hr])
    exact ⟨time, htime, fun hlegible => hday hlegible.1⟩
  · rintro found rfl
    obtain ⟨last, rfl, hself, hcompound⟩ := hanswers.good s found (by rw [hr])
    obtain ⟨c, hw, hc⟩ := (hrepeated expand path).touches s
    have hsame := (hrepeated expand path).records s
    rw [hr] at hw hsame
    dsimp only at hw hsame
    refine ⟨by rwa [hw], last, last, [], [], rfl, ⟨?_, ?_, .inl rfl, ?_⟩, ⟨hself, hcompound, ?_⟩, rfl⟩
    · rw [hsame, hw]
      exact hsound.congr (kept_congr rfl rfl) rfl
    · rw [hsame, hrecords]
      exact .nil
    · intro _ state _ _ doc
      exact Bool.eq_iff_iff.mp (hself E.base (E.resolve state) doc)
    · intro expand' path' s' hs'
      exact ((hrepeated expand' path').again s (some last) (by rw [hr]) s' (by rwa [hr])).1

/-- By induction on the chain: every link adds a lookup. -/
theorem comes_chained (hcache : d.cache.IsUsable .waiting d.settings.subquery.lifetimeSeconds)
    (hdirect : p.inverse = false) (hleaf : leaf.IsLeaf) {links : List (Property × Option Int)}
    (hlinks : ∀ link ∈ links, link.1.inverse = false) (expand : Deployment.Expansion σ) (path : List Nat)
    {q : Property} {inner : Description} {qdepth : Option Int}
    (hchain : Description.chained links (.someProperty p leaf depth) = .someProperty q inner qdepth)
    {s : World σ × Progress} (hsound : E.Sound docs (d.Fits s.2.records) s.1 [])
    (hrecords : s.2.records = []) : (d.compileProperty expand path none q qdepth inner).Meets s
      (E.Comes docs links p depth leaf s.1.catalog) := by
  induction links generalizing q inner qdepth path s with
  | nil =>
      cases hchain
      exact comes_leaf hdirect hleaf expand path hsound hrecords
  | cons link links ih =>
      cases hchain
      obtain ⟨q, inner, qdepth, hrest⟩ := Description.exists_chained links p leaf depth
      have hinner : ∀ ds, inner ≠ .disjunction ds := by
        rintro ds rfl
        cases links with
        | nil =>
            cases hrest
            exact hleaf
        | cons link links =>
            obtain ⟨q', inner', qdepth', hnext⟩ := Description.exists_chained links p leaf depth
            simp only [Description.chained, hnext] at hrest
            cases hrest
      obtain ⟨site, c, hsite, hgrows, hfield⟩ := d.exists_propertySite link.1 link.2 s.1
      have hact : (Compiling.act (d.propertySite link.1 link.2)).outcome s =
          (.ok site, ({ s.1 with catalog := c }, s.2)) := by
        rw [Compiling.outcome_act, hsite]
      rw [hrest, d.compileProperty_chained expand path link.2 qdepth
        (hlinks link List.mem_cons_self) hinner]
      refine Meets.bind_of_ok hact ((ih (fun l hl => hlinks l (List.mem_cons_of_mem _ hl))
        (path ++ [0]) hrest (s := ({ s.1 with catalog := c }, s.2))
        (hsound.congr (kept_congr rfl rfl) rfl) hrecords).bind ?_ ?_)
      · rintro found t ⟨-, hfound⟩
        obtain ⟨hgrows', clause, last, fields, made, rfl, hreached, hend, hfields⟩ := hfound found rfl
        refine (hreached.linked hcache hend.compound _ q _).mono fun r t' hr => ⟨?_, ?_⟩
        · intro e he
          have htimes := congrArg Description.times hrest
          rw [Description.times_chained] at htimes
          obtain ⟨time, htime, hillegible⟩ := Description.exists_illegible (hr.1 e he)
          exact ⟨time, by rwa [show leaf.times = _ from htimes], hillegible⟩
        · intro found' hfound'
          obtain ⟨hsame, clause', made', hclause', hreached'⟩ := hr.2 found' hfound'
          refine ⟨?_, clause', last, _, made', hclause', hreached', ?_, ?_⟩
          · rw [hsame]
            exact hgrows.trans hgrows'
          · rwa [hsame]
          · rw [List.map_cons, List.map_cons, hsame, hfields, hgrows'.linkField? hfield]
      · rintro e t ⟨herror, -⟩
        exact ⟨herror, nofun⟩

end ExactEngine

namespace Deployment

/-- The query of a chain selects the documents that are joined with one that the query of the last
property selects: each has the number of the next in the field of its property. This holds for any
threshold and for queries with and without scores, if the cache is empty in the beginning, the engine
answers exactly, no lookup finds more than it asks for and the digest tells the lookups apart. The query
of the last property is that which compiling it on its own comes to.

There is a query unless a time in the description of the values is too far off. -/
theorem compile_chain (d : Deployment σ) (E : ExactEngine d)
    (hcache : d.cache.IsUsable .waiting d.settings.subquery.lifetimeSeconds)
    {links : List (Property × Option Int)} (hlinks : ∀ link ∈ links, link.1.inverse = false)
    {p : Property} (hdirect : p.inverse = false) {leaf : Description} (hleaf : leaf.IsLeaf)
    (depth : Option Int) {w : World σ} (hempty : ∀ full, w.kept d full = none) :
    (d.compile false (.chained links (.someProperty p leaf depth))).Meets w fun r after =>
      (∀ e, r = .error e → ∃ t ∈ leaf.times, ¬ Description.IsLegible t) ∧
      ∀ query progress, r = .ok (query, progress) → ∃ last lastProgress fields,
        ((d.compile false (.someProperty p leaf depth)).outcome after).1 = .ok (last, lastProgress) ∧
        links.map (fun link => after.catalog.linkField? link.1) = fields.map some ∧
        (d.Fits progress.records → ∀ doc,
          Clause.selects (E.matching after.engine) doc query = true ↔
            Joins E.base (E.docs w.engine)
              (fun doc => Clause.selects (E.matching after.engine) doc last = true) fields doc) := by
  have htimes : (Description.chained links (.someProperty p leaf depth)).times = leaf.times :=
    Description.times_chained links _
  by_cases hshown : d.settings.query.nodeLog = true → ∀ t ∈ leaf.times, ∃ s, Time.label t = .ok s
  · have hportrait : ∀ node : Description, node.times = leaf.times →
        d.settings.query.nodeLog = true → ∃ ms, node.portrait = .ok ms := by
      intro node hnode hlog
      rw [Description.isOk_portrait, hnode]
      exact hshown hlog
    obtain ⟨q, inner, qdepth, hchain⟩ := Description.exists_chained links p leaf depth
    obtain ⟨start, hvisit, hrecords⟩ := d.exists_visit (hportrait _ htimes) (w, {})
    have hcomes := ExactEngine.comes_chained (E := E) hcache hdirect hleaf hlinks
      (d.expandConcept (w.catalog.concepts.length + 1)) [] hchain (s := (w, start))
      (ExactEngine.Sound.of_empty rfl hempty) hrecords
    unfold Meets
    rw [outcome_compile, hchain, compileNode, ← hchain]
    dsimp only
    rw [outcome_bind_of_ok hvisit]
    rcases hr : (d.compileProperty (d.expandConcept (w.catalog.concepts.length + 1)) [] none q qdepth
      inner).outcome (w, start) with ⟨r, after, progress⟩
    obtain ⟨herror, hfound⟩ := hcomes.of_outcome hr
    refine ⟨fun e he => ?_, ?_⟩
    · cases r with
      | error e' => exact herror e' rfl
      | ok found => cases he
    · rintro query progress' hok
      cases r with
      | error e => cases hok
      | ok found =>
          cases hok
          obtain ⟨-, clause, last, fields, made, rfl, hreached, hend, hfields⟩ := hfound _ rfl
          obtain ⟨lastProgress, hlast⟩ := hend.compile (hportrait (.someProperty p leaf depth) rfl)
          refine ⟨some last, lastProgress, fields, hlast, hfields, fun hfits doc => ?_⟩
          have hselects := hreached.selects hfits after.engine hreached.sound.docs_eq
            (hreached.sound.inPlace hfits) doc
          have hlasts : (fun doc => Clause.selects (E.matching after.engine) doc (some last) = true) =
              fun doc => Clause.holds E.base doc last = true :=
            funext fun doc => congrArg (· = true) (hend.selfContained E.base (E.resolve after.engine) doc)
          dsimp only
          rw [hlasts]
          exact hselects
  · have hlog : d.settings.query.nodeLog = true := by
      by_contra hlog
      exact hshown fun h => absurd h hlog
    have hlabel : ¬ ∀ t ∈ leaf.times, ∃ s, Time.label t = .ok s := fun h => hshown fun _ => h
    obtain ⟨e, he⟩ := d.compile_error_of_portrait hlog
      (by rwa [Description.isOk_portrait, htimes]) false w
    simp only [not_forall] at hlabel
    obtain ⟨t, ht, hlabel⟩ := hlabel
    unfold Meets
    rw [he]
    exact ⟨fun _ _ => ⟨t, ht, fun hlegible => hlabel hlegible.2⟩, by rintro _ _ ⟨⟩⟩

/-- Every list is stored, however short it is. -/
private def mapSettings : Settings := { subquery := { threshold := 1 } }

private def mapStore : Deployment Archive := Archive.deployment mapSettings

/-- A town that lies in a country, and the country with its population. -/
private def mapArchive : Archive where
  docs := [
    (1, fun field => if field = "P:100.wpgID" then [.int 2] else []),
    (2, fun field => if field = "P:101.numField" then [.int 5] else [])]

private def mapWorld : World Archive := { engine := mapArchive, catalog := { next := 100 } }

private def mapLinks : List (Property × Option Int) := [({ key := "Located in" }, none)]

private def mapEnd : Property := { key := "Population", valueType := .number }

/-- What has a population. -/
private def mapLast : Json := Clause.compound .filter [Clause.hasField "P:101.numField"]

private def mapLookup : Lookup := mapStore.chainLookup mapLast

/-- The world when both properties have their numbers. -/
private def mapNumbered : World Archive :=
  { mapWorld with catalog := ((mapWorld.catalog.number (.property { key := "Located in" })).2.number
      (.property mapEnd)).2 }

private def mapResolved : Resolved :=
  ⟨mapStore.hasNumber "P:100.wpgID" (Clause.reference "semindex-lookup" mapLookup.id "id"),
    [("lookup_query", .str "Population → [[Population::+]]"), ("query", .obj mapLookup.body),
      ("count", .int 1), ("is_from_cache", .bool false)]⟩

private theorem map_selected : mapArchive.selected (wrapped mapLast true) = [2] := by
  have hwrapped : wrapped mapLast true =
      Clause.constantScore (Clause.compound .must [mapLast]) := rfl
  rw [hwrapped]
  simp [Archive.selected, mapArchive, Clause.holds_constantScore, mapLast]

private theorem map_lookup : ∃ after, (mapStore.lookupChain mapEnd "[[Population::+]]" "P:100.wpgID"
    mapLast).outcome mapNumbered = (.ok mapResolved, after) := by
  have hbody : mapLookup.body = mapStore.lookupBody (wrapped mapLast true) (.bool false) := rfl
  have hresolve : (mapLookup.resolve mapStore).outcome mapNumbered = _ :=
    Archive.resolve_eq rfl hbody rfl
  have hselected : mapNumbered.engine.selected (wrapped mapLast true) = [2] := map_selected
  rw [hselected] at hresolve
  exact ⟨_, outcome_bind_of_ok hresolve _⟩

private theorem map_run : ∃ after, (mapStore.compile false
      (.chained mapLinks (.someProperty mapEnd (.thing false) none))).outcome mapWorld =
    (.ok (some mapResolved.clause, { records := [mapResolved.record] }), after) := by
  obtain ⟨after, hlookup⟩ := map_lookup
  have htext : (Description.someProperty mapEnd (.thing false) none).queryText =
      .ok "[[Population::+]]" := by decide +kernel
  have hlinked : (mapStore.linked (some "P:100.wpgID") mapEnd (.someProperty mapEnd (.thing false) none)
      (some mapLast)).outcome (mapNumbered, {}) =
        (.ok (some mapResolved.clause), (after, { records := [mapResolved.record] })) := by
    unfold linked
    dsimp only
    rw [htext]
    exact outcome_bind_of_ok (Compiling.outcome_lookUp_of_ok (s := (mapNumbered, {})) hlookup) _
  have hnode : (mapStore.compileNode (mapStore.expandConcept 1) false []
      (.chained mapLinks (.someProperty mapEnd (.thing false) none))).outcome (mapWorld, {}) =
        (.ok (some mapResolved.clause), (after, { records := [mapResolved.record] })) := by
    rw [mapLinks, Description.chained, Description.chained, compileNode,
      compileProperty_chained _ _ _ _ _ rfl (by rintro ds ⟨⟩)]
    exact hlinked
  refine ⟨after, ?_⟩
  rw [outcome_compile, show mapWorld.catalog.concepts.length + 1 = 1 from rfl, hnode]
  rfl

private def mapText : String :=
  "\x7b\"_source\":false,\"query\":\x7b\"constant_score\":\x7b\"filter\":\x7b\"bool\":" ++
    "\x7b\"must\":[\x7b\"bool\":\x7b\"filter\":[\x7b\"exists\":\x7b\"field\":" ++
    "\"P:101.numField\"\x7d\x7d]\x7d\x7d]\x7d\x7d\x7d\x7d,\"size\":100\x7d"

private theorem map_text : structuralText (.obj mapLookup.body) = mapText := by
  have hbody : Json.obj mapLookup.body = .obj [("_source", .bool false),
      ("query", .single "constant_score" (.single "filter" (.single "bool" (.single "must" (.arr
        [.single "bool" (.single "filter" (.arr
          [.single "exists" (.single "field" (.str "P:101.numField"))]))]))))),
      ("size", .int 100)] := rfl
  rw [hbody, Json.structuralText_obj_of_sorted (by decide)]
  simp only [List.map_cons, List.map_nil, Json.structuralText_single, Json.structuralText_arr]
  decide +kernel

private theorem map_fits : mapStore.Fits [mapResolved.record] where
  count record hrecord n hn := by
    obtain rfl := List.mem_singleton.mp hrecord
    cases hn
    decide
  apart := by
    have htexts : ([mapResolved.record].flatMap fun record =>
        ((Table.get? record "query").map mapStore.digested).getD []) =
          [mapText, structuralText (Json.ofTexts [md5 mapText, "1"])] := by
      show mapStore.digested (.obj mapLookup.body) = _
      unfold digested structuralHash
      rw [map_text]
      rfl
    rw [htexts]
    unfold Digest.TellsApart
    decide +kernel

theorem compile_chain_map :
    mapStore.cache.IsUsable .waiting mapStore.settings.subquery.lifetimeSeconds ∧
      (∀ link ∈ mapLinks, link.1.inverse = false) ∧ mapEnd.inverse = false ∧
      (Description.thing false).IsLeaf ∧ (∀ full, mapWorld.kept mapStore full = none) ∧
      ∃ query progress after last lastProgress fields,
        (mapStore.compile false
          (.chained mapLinks (.someProperty mapEnd (.thing false) none))).outcome mapWorld =
            (.ok (query, progress), after) ∧
        mapStore.Fits progress.records ∧
        ((mapStore.compile false (.someProperty mapEnd (.thing false) none)).outcome after).1 =
          .ok (last, lastProgress) ∧
        mapLinks.map (fun link => after.catalog.linkField? link.1) = fields.map some ∧
        ∀ doc, Clause.selects ((Archive.exact mapSettings).matching after.engine) doc query = true ↔
          Joins Archive.base mapArchive.docs (fun doc => Clause.selects
            ((Archive.exact mapSettings).matching after.engine) doc last = true) fields doc := by
  have husable : mapStore.cache.IsUsable .waiting mapStore.settings.subquery.lifetimeSeconds :=
    fun _ _ hserver => nomatch hserver
  have hlinks : ∀ link ∈ mapLinks, link.1.inverse = false := by simp [mapLinks]
  have hleaf : (Description.thing false).IsLeaf := trivial
  have hempty : ∀ full, mapWorld.kept mapStore full = none := fun _ => rfl
  obtain ⟨after, hrun⟩ := map_run
  have hchain := compile_chain mapStore (Archive.exact mapSettings) husable hlinks
    (p := mapEnd) rfl hleaf none hempty
  obtain ⟨last, lastProgress, fields, hlast, hfields, hselects⟩ := (hchain.of_outcome hrun).2 _ _ rfl
  exact ⟨husable, hlinks, rfl, hleaf, hempty, _, _, after, last, lastProgress, fields, hrun, map_fits,
    hlast, hfields, hselects map_fits⟩

end Deployment

end FactIndex
