import FactIndex.Proofs.Compile.Places

/-!
# What a compiled description means

Step by step the clauses of a description select what the description means. A lookup in between
replaces a clause by the numbers of the documents that it selects, which a property points to and by
which the members of a concept are known.

## Main definitions

* `Lexicon.reached`: what is meant of a member of a chain.
* `Hindsight.Express`: several clauses select what several descriptions mean.
* `Hindsight.comes_linked`, `Hindsight.comes_objectClause`: lookups of what is meant.
* `Hindsight.comes_standing`, `Hindsight.comes_leaf`: conditions.
* `Hindsight.comes_disjoined`: disjunctions.
-/

namespace FactIndex

open FactIndex.Effect FactIndex.Digest FactIndex.Compiling

variable {σ : Type}

/-! ## Senses of several descriptions -/

/-- What is meant of a member of a chain, from where the field before it leads to the member. -/
def Lexicon.reached (L : Lexicon) : Option String → Sense → Sense
  | none, sense => sense
  | some field, sense => L.points field sense

@[simp] theorem Lexicon.reached_none (L : Lexicon) : L.reached none = id := rfl

namespace Sense

@[simp] theorem all_singleton (sense : Sense) : Sense.all [sense] = sense := by
  cases sense with
  | none => rfl
  | some meant => simp [all, List.reduceOption]

/-- What several constraints mean together is pointed to if what one of them means is. -/
theorem any_map_points (L : Lexicon) (field : String) (senses : List Sense) :
    Sense.any (senses.map (L.points field)) = L.points field (Sense.any senses) := by
  have hreduce : (senses.map (L.points field)).reduceOption =
      senses.reduceOption.map fun meant doc =>
        L.docs.any fun x => meant x.2 && L.links doc field x.1 := by
    induction senses with
    | nil => rfl
    | cons sense senses ih => cases sense <;> simp [Lexicon.points, ih]
  unfold any
  rw [hreduce, List.isEmpty_map]
  split
  · rfl
  · refine congrArg some (funext fun doc => ?_)
    rw [List.any_map, Bool.eq_iff_iff]
    simp only [List.any_eq_true, Function.comp_apply, Bool.and_eq_true]
    constructor
    · rintro ⟨meant, hmeant, x, hx, hboth⟩
      exact ⟨x, hx, ⟨meant, hmeant, hboth.1⟩, hboth.2⟩
    · rintro ⟨x, hx, ⟨meant, hmeant, hboth⟩, hlink⟩
      exact ⟨meant, hmeant, x, hx, hboth, hlink⟩

end Sense

namespace Hindsight

variable {d : Deployment σ} {H : Hindsight d} {made made' : List Settled}

/-- Each of several clauses selects what one of several descriptions means, apart from those that put no
constraint. -/
def Express (H : Hindsight d) (made : List Settled) (clauses : List Json) (senses : List Sense) : Prop :=
  List.Forall₂ (H.Means made) clauses senses.reduceOption

theorem Express.mono {clauses : List Json} {senses : List Sense} (h : H.Express made clauses senses)
    (hsub : made ⊆ made') : H.Express made' clauses senses :=
  List.Forall₂.imp (fun _ _ hmeans => Means.mono hmeans hsub) h

theorem Express.cons {found : Option Json} {sense : Sense} {clauses : List Json} {senses : List Sense}
    (hfound : H.Expresses made found sense) (h : H.Express made clauses senses) :
    H.Express made (found.toList ++ clauses) (sense :: senses) := by
  cases hfound with
  | none => exact h
  | some hmeans => exact List.Forall₂.cons hmeans h

/-- What holds of a document by all of several clauses, or by one of them. -/
theorem holds_of_express {clauses : List Json} {meanings : List (Indexed → Bool)}
    (h : List.Forall₂ (H.Means made) clauses meanings) {s : σ} (hs : H.engine.docs s = H.docs)
    (hin : H.engine.InPlace s made) {x : Int × Indexed} (hx : x ∈ H.docs) :
    clauses.all (Clause.holds (H.engine.matching s) x.2) = meanings.all (fun meant => meant x.2) ∧
      clauses.any (Clause.holds (H.engine.matching s) x.2) = meanings.any fun meant => meant x.2 := by
  induction h with
  | nil => exact ⟨rfl, rfl⟩
  | cons hmeans _ ih =>
      simp only [List.all_cons, List.any_cons, hmeans.2 s hs hin x hx, ih.1, ih.2, and_self]

theorem Express.isEmpty_eq {clauses : List Json} {senses : List Sense}
    (h : H.Express made clauses senses) : clauses.isEmpty = senses.reduceOption.isEmpty := by
  rw [Bool.eq_iff_iff, List.isEmpty_iff_length_eq_zero, List.isEmpty_iff_length_eq_zero,
    List.Forall₂.length_eq h]

/-- Clauses that are joined select what is meant by all of several descriptions. -/
theorem expresses_all {clauses : List Json} {senses : List Sense} (h : H.Express made clauses senses) :
    H.Expresses made (Deployment.joined .must clauses) (Sense.all senses) := by
  unfold Deployment.joined Sense.all
  rw [h.isEmpty_eq]
  split
  · exact .none
  · refine .some (means_compound fun s hs hin x hx => ?_)
    rw [Clause.holds_must]
    exact (holds_of_express h hs hin hx).1

/-- Clauses of which one has to hold select what is meant by one of several descriptions. -/
theorem expresses_any {clauses : List Json} {senses : List Sense} (h : H.Express made clauses senses) :
    H.Expresses made (Deployment.joined .should clauses) (Sense.any senses) := by
  unfold Deployment.joined Sense.any
  rw [h.isEmpty_eq]
  split
  · exact .none
  · rename_i hsome
    refine .some (means_compound fun s hs hin x hx => ?_)
    rw [Clause.holds_should, h.isEmpty_eq, Bool.eq_false_iff.mpr hsome, Bool.false_or]
    exact (holds_of_express h hs hin hx).2

end Hindsight

/-! ## Names of lookups -/

namespace Deployment

variable (d : Deployment σ) (c : Catalog) (records : List Members) (members : String → Int → Prop)

/-- A lookup of a member of a chain is named by what is recorded of it. -/
theorem isNamed_chainLookup (clause : Json) (title : String) (record : Members) (result : Int → Prop)
    (isStored : Bool) : Settled.IsNamed c (d.digestedValues c (records ++
        [[("lookup_query", .str title), ("query", .obj (d.chainLookup clause).body)] ++ record]))
      members ⟨d.chainLookup clause, result, isStored⟩ where
  key := mem_digestedValues_of_record (List.mem_cons_of_mem _ (List.mem_singleton_self _))
  id := .inl ⟨"", (String.empty_append (s := _)).symm, mem_digestedValues_of_record List.mem_cons_self⟩

/-- A lookup of the objects of a property is named by what is recorded of it. -/
theorem isNamed_plainLookup (key : String) (params : Json) (record : Members) (result : Int → Prop)
    (isStored : Bool) : Settled.IsNamed c (d.digestedValues c (records ++
        [[("predefined_lookup_query", .str key), ("query", .obj (d.plainLookup key params).body)] ++
          record]))
      members ⟨d.plainLookup key params, result, isStored⟩ where
  key := mem_digestedValues_of_record (List.mem_cons_of_mem _ (List.mem_singleton_self _))
  id := .inl ⟨"pre:", rfl, mem_digestedValues_of_record List.mem_cons_self⟩

end Deployment

namespace Hindsight

variable {d : Deployment σ} {H : Hindsight d} {made : List Settled} {s : World σ × Progress}
  {fails : Prop} {clause : Json} {meant : Indexed → Bool} {clauses : List Json} {senses : List Sense}

/-! ## Lookups of what is meant -/

/-- A query amounts to the documents that it selects. -/
theorem amountsTo_of_holds {query : Json} (h : ∀ s, H.engine.docs s = H.docs →
    H.engine.InPlace s made → ∀ x ∈ H.docs, Clause.holds (H.engine.matching s) x.2 query = meant x.2) :
    H.engine.AmountsTo H.docs made query (H.collected meant) := by
  intro state hstate hin n
  unfold ExactEngine.Selected collected
  rw [hstate]
  refine exists_congr fun doc => and_congr_right fun hmem => ?_
  rw [h state hstate hin (n, doc) hmem]

/-- The query of a lookup for a clause amounts to what the clause means. -/
theorem Means.amountsTo (h : H.Means made clause meant) (constantScore : Bool) :
    H.engine.AmountsTo H.docs made (Deployment.wrapped clause constantScore) (H.collected meant) :=
  amountsTo_of_holds fun state hstate hin x hx => by
    rw [Deployment.holds_wrapped_clause h.1, h.2 state hstate hin x hx]

/-- What a clause selects is meant. -/
theorem Expresses.means {sense : Sense} (h : H.Expresses made (some clause) sense) :
    sense = some (sense.getD fun _ => false) ∧ H.Means made clause (sense.getD fun _ => false) := by
  cases h with
  | some hmeans => exact ⟨rfl, hmeans⟩

/-- A member of a chain is looked up, if it is one. -/
theorem comes_linked (chain : Option String) (p : Property) {whole : Description} {found : Option Json}
    {sense : Sense} (h : H.Kept s made) (hfound : H.Fine s → H.Expresses made found sense)
    (htimes : ∀ time ∈ whole.times, ¬ Description.IsLegible time → fails) :
    (d.linked chain p whole found).Meets s (H.Comes made s (fun _ => False) fails fun clause made' _ =>
      H.Expresses made' clause (H.lexicon.reached chain sense)) := by
  cases chain with
  | none =>
      rw [Deployment.linked_none]
      exact Comes.pure h hfound
  | some field =>
      cases found with
      | none =>
          refine Comes.pure h fun hfine => ?_
          cases hfound hfine
          exact .none
      | some clause =>
          unfold Deployment.linked
          dsimp only
          refine Comes.bind_quiet (comes_queryText h htimes) fun text made' t hsub hkept _ hfine => ?_
          have hmeans : H.Fine t → H.Means made' clause (sense.getD fun _ => false) := fun ht =>
            (hfound (hfine ht).1).means.2.mono hsub
          refine Comes.bind_quiet (comes_resolved hkept H.isUsable rfl rfl rfl
            (fun ht => (hmeans ht).amountsTo d.settings.subquery.constantScore) field (by decide) _
            fun _ record isStored => d.isNamed_chainLookup _ _ _ clause _ record _ isStored)
            fun found made'' t' _ hkept' _ hfound' => Comes.pure hkept' fun ht' => ?_
          obtain ⟨ht, hpoints⟩ := hfound' ht'
          rw [(hfound (hfine ht).1).means.1]
          exact .some hpoints

/-- Without a clause there is no constraint. -/
theorem Express.all_eq_none (h : H.Express made [] senses) : Sense.all senses = none := by
  have hjoined := expresses_all h
  cases hsense : Sense.all senses with
  | none => rfl
  | some meant =>
      rw [hsense] at hjoined
      cases hjoined

/-- Clauses that have to hold together amount to what is meant by all of them. -/
theorem Express.amountsTo (h : H.Express made clauses senses) (hne : clauses.isEmpty = false) :
    Sense.all senses = some ((Sense.all senses).getD fun _ => false) ∧
      H.engine.AmountsTo H.docs made (Deployment.wrapped (.arr clauses) true)
        (H.collected ((Sense.all senses).getD fun _ => false)) := by
  have hjoined := expresses_all h
  unfold Deployment.joined at hjoined
  rw [hne] at hjoined
  obtain ⟨hsome, hmeans⟩ := hjoined.means
  refine ⟨hsome, amountsTo_of_holds fun state hstate hin x hx => ?_⟩
  rw [← hmeans.2 state hstate hin x hx]
  exact Clause.holds_constantScore _ _ _

/-- The objects of a property are looked up, if something is said of them. -/
theorem comes_objectClause {p : Property} (hdirect : p.inverse = false) {group : String}
    (text : String) (h : H.Kept s made)
    (hgroup : H.Fine s → H.lexicon.field p = Field.inGroup group Field.numbers)
    (hclauses : H.Fine s → H.Express made clauses senses) :
    (d.objectClause p group text clauses).Meets s (H.Comes made s (fun _ => False) fails
      fun clause made' _ => H.Expresses made' clause
        (H.lexicon.points (H.lexicon.objectField p) (Sense.all senses))) := by
  unfold Deployment.objectClause
  split
  · rename_i hempty
    rw [List.isEmpty_iff] at hempty
    subst hempty
    refine Comes.pure h fun hfine => ?_
    rw [(hclauses hfine).all_eq_none]
    exact .none
  · rename_i hne
    rw [hdirect]
    have hamounts := fun hs : H.Fine s => (hclauses hs).amountsTo (Bool.eq_false_iff.mpr hne)
    refine Comes.bind_quiet (comes_resolved h H.isUsable rfl rfl rfl (fun hs => (hamounts hs).2) _
      (by decide) text fun _ record isStored =>
        d.isNamed_plainLookup _ _ _ text (.arr clauses) record _ isStored)
      fun found made' t _ hkept _ hfound => Comes.pure hkept fun ht => ?_
    obtain ⟨hs, hpoints⟩ := hfound ht
    have hfield : H.lexicon.objectField p =
        if p.isPage then Field.inGroup group Field.numbers else "_id" := by
      unfold Lexicon.objectField
      rw [hgroup hs]
    rw [hfield, (hamounts hs).1]
    refine .some (means_compound fun state hstate hin x hx => ?_)
    simp only [Clause.holds_must, List.all_cons, List.all_nil, Bool.and_true]
    exact hpoints.2 state hstate hin x hx

/-! ## Nodes that are read off the catalog -/

/-- A node that stands on its own selects what it means. -/
theorem comes_standing {node : Description} (hnode : node.IsStanding) (isMember : Bool)
    (h : H.Kept s made) (htimes : ∀ time ∈ node.times, ¬ Description.IsLegible time → fails) :
    (d.standingClause isMember node).Meets s (H.Comes made s (fun _ => False) fails
      fun clause made' _ => H.Expresses made' (some clause) (H.lexicon.standing node)) := by
  have htame : ∀ path, Tame (unrecordedTie σ) d.settings.query.negatedExists path
      (d.standingClause isMember node) := by
    intro path
    have hkept := isKept_unrecordedTie d
    cases node with
    | category =>
        exact (@Agree.onCatalog _ _ _ _ _ path path hkept _ (d.onCatalog_categoryClause _ _ _ _)).left
    | space => exact Tame.pure _
    | value => exact (@Deployment.agree_entityClause _ _ _ path path hkept isMember _ _ _).left
    | conjunction | disjunction | concept | someProperty | thing => exact hnode.elim
  have hanswers : Answers (d.standingClause isMember node) fails Clause.IsClosed := by
    refine (Deployment.answers_standingClause hnode isMember).of_fails ?_
    rintro ⟨time, ht, hday⟩
    exact htimes time ht fun hlegible => hday hlegible.1
  refine Comes.mono (comes_read (Deployment.repeatedBy_standingClause hnode isMember) hanswers
    (Within.of_tame htame _) h) (fun _ => id) ?_
  rintro clause made' t - - - - ⟨hread, hclosed, -⟩
  obtain ⟨other, hother, hsame⟩ := Deployment.exists_standingClause hnode (read?_eq_some.mp hread)
  have hstanding : H.lexicon.standing node =
      some fun doc => Clause.holds H.engine.base doc clause := by
    show ((d.standingClause true node).read? H.world).map _ = _
    rw [read?_eq_some.mpr hother, Option.map_some]
    exact congrArg some (funext fun doc => (hsame _ doc).symm)
  rw [hstanding]
  exact .some (means_of_isClosed hclosed)

end Hindsight

namespace Deployment

variable (d : Deployment σ) {p : Property}

theorem repeatedBy_valueCondition (hdirect : p.inverse = false) (depth : Option Int) (item : Item)
    (comparator : Comparator) (property : Option Property) :
    RepeatedBy (d.valueCondition p depth item comparator property)
      (d.valueCondition p depth item comparator property) :=
  (d.repeatedBy_propertySite p depth).bind fun _ =>
    (d.repeatedBy_propertyCondition hdirect _ _ _ _).bind fun _ => RepeatedBy.pure _

theorem tame_propertySite (path : List Nat) (depth : Option Int) :
    Tame (unrecordedTie σ) d.settings.query.negatedExists path (act (d.propertySite p depth)) :=
  (@Agree.onCatalog _ _ _ _ _ path path (isKept_unrecordedTie d) _ (d.onCatalog_propertySite _ _)).left

theorem tame_valueCondition (path : List Nat) (depth : Option Int) (item : Item)
    (comparator : Comparator) (property : Option Property) :
    Tame (unrecordedTie σ) d.settings.query.negatedExists path
      (d.valueCondition p depth item comparator property) :=
  (d.tame_propertySite path depth).bind fun _ =>
    (@agree_propertyCondition _ _ _ path path (isKept_unrecordedTie d) _ _ _ _ _).left.bind fun _ =>
      Tame.pure _

/-- A condition is compiled to a clause, and noted at its place if it is negated. -/
theorem compileProperty_value (expand : Expansion σ) (path : List Nat) (depth : Option Int) (item : Item)
    (comparator : Comparator) (property : Option Property) :
    d.compileProperty expand path none p depth (.value item comparator property) =
      d.valueCondition p depth item comparator property >>= fun found =>
        (let clause := if p.inverse then found.2.clause
          else Clause.overHierarchy found.2.clause found.1.1 found.1.2
        if found.2.negated then d.negatedClause path (Field.inGroup found.1.1 found.2.array) clause
        else return Clause.compound found.2.occur [clause]) >>= fun clause => return some clause := by
  rw [compileProperty]
  unfold valueCondition valueClause
  simp only [bind_assoc, pure_bind, linked_none]

variable {d}

/-- The field of a negated condition is noted at its place, and nothing is noted otherwise. -/
theorem noted_of_leaf (hdirect : p.inverse = false) {leaf : Description} (hleaf : leaf.IsLeaf)
    {expand : Expansion σ} {path : List Nat} {depth : Option Int} {s t : World σ × Progress}
    {found : Option Json}
    (h : (d.compileProperty expand path none p depth leaf).outcome s = (.ok found, t))
    (hfresh : s.2.negated.get? path = none) {w : World σ} (hgrows : t.1.catalog.Grows w.catalog) :
    (found.bind fun _ => t.2.negated.get? path) = d.notedField w (.someProperty p leaf depth) := by
  cases leaf with
  | thing negated =>
      rw [compileProperty] at h
      obtain ⟨site, u, hsite, h⟩ := exists_of_bind_ok h
      cases h
      rw [outcome_act] at hsite
      obtain ⟨-, rfl⟩ := Prod.mk.inj hsite
      exact hfresh
  | value item comparator property =>
      rw [compileProperty_value] at h
      obtain ⟨⟨site, m⟩, u, hfound, h⟩ := exists_of_bind_ok h
      obtain ⟨clause, v, hclause, h⟩ := exists_of_bind_ok h
      cases h
      have hsame : u.2.negated.get? path = none := by
        have hwithin := Within.of_tame (fun path => d.tame_valueCondition (p := p) path depth item
          comparator property) (fun _ => False) s
        rw [hfound] at hwithin
        rw [hwithin.negated path id, hfresh]
      have hread : u.1.catalog.Grows w.catalog →
          (d.valueCondition p depth item comparator property).read? w = some (site, m) := fun hu =>
        (d.repeatedBy_valueCondition hdirect depth item comparator property).read (by rw [hfound])
          (by rwa [hfound])
      unfold notedField
      dsimp only at hclause ⊢
      cases hnegated : m.negated with
      | false =>
          rw [hnegated, if_neg Bool.false_ne_true] at hclause
          cases hclause
          rw [hread hgrows]
          simp [hsame, hnegated]
      | true =>
          rw [hnegated, if_pos rfl] at hclause
          unfold negatedClause at hclause
          cases hnoted : d.settings.query.negatedExists with
          | false =>
              simp only [hnoted, Bool.false_eq_true, if_false] at hclause
              cases hclause
              simp [hsame]
          | true =>
              simp only [hnoted, if_true] at hclause
              cases hclause
              rw [hread hgrows]
              simp [hnegated, Table.get?_put_self]
  | conjunction | disjunction | category | concept | space | someProperty => exact hleaf.elim

end Deployment

namespace Hindsight

variable {d : Deployment σ} {H : Hindsight d} {made : List Settled} {stack : List String}
  {s : World σ × Progress} {fails : Prop} {p : Property}

/-- A condition on the values of a property selects what it means. -/
theorem comes_leaf (hdirect : p.inverse = false) {leaf : Description} (hleaf : leaf.IsLeaf)
    (expand : Deployment.Expansion σ) (path : List Nat) (depth : Option Int)
    (h : H.Ready stack (path <+: ·) made s)
    (htimes : ∀ time ∈ leaf.times, ¬ Description.IsLegible time → fails) :
    (d.compileProperty expand path none p depth leaf).Meets s (H.Comes made s (path <+: ·) fails
      fun found made' t => H.Expresses made' found (H.lexicon.condition p depth leaf) ∧
        (found.bind fun _ => t.2.negated.get? path) =
          H.lexicon.noted (.someProperty p leaf depth)) := by
  have hfails : (∃ time ∈ leaf.times, ¬ ∃ x, Calendar.TimeOf.dayNumber time = .ok x) → fails := by
    rintro ⟨time, ht, hday⟩
    exact htimes time ht fun hlegible => hday hlegible.1
  have hanswers := (d.answers_property hdirect hleaf expand path depth).of_fails hfails
  have htame : Tame (unrecordedTie σ) d.settings.query.negatedExists path
      (d.compileProperty expand path none p depth leaf) := by
    have hsite := d.tame_propertySite (p := p) path depth
    cases leaf with
    | thing negated =>
        rw [Deployment.compileProperty]
        exact hsite.bind fun _ => Tame.pure _
    | value item comparator property =>
        rw [Deployment.compileProperty]
        exact hsite.bind fun site => (@Deployment.agree_valueClause _ _ _ path path
          (isKept_unrecordedTie d) _ _ _ _ _).left.bind fun _ => Tame.pure _
    | conjunction | disjunction | category | concept | space | someProperty => exact hleaf.elim
  have hwithin : ∀ s, Within (path <+: ·) s
      ((d.compileProperty expand path none p depth leaf).outcome s).2 := fun s =>
    ⟨htame.expanding s, fun position hout => htame.negated s position fun hin => hout hin.2⟩
  refine Comes.mono (comes_read (d.repeatedBy_property hdirect hleaf expand (fun _ _ _ => return none)
    path [] depth) hanswers hwithin h.kept) (fun _ => id) ?_
  rintro found made' t - - - ht ⟨hread, ⟨clause, rfl, hself, hbody⟩, houtcome⟩
  refine ⟨?_, Deployment.noted_of_leaf hdirect hleaf houtcome (h.fresh path List.prefix_rfl) ht.grows⟩
  · have hcondition : H.lexicon.condition p depth leaf =
        some fun doc => Clause.holds H.engine.base doc clause := by
      have hclause : d.leafClause p depth leaf =
          d.compileProperty (fun _ _ _ => return none) [] none p depth leaf := by
        cases leaf with
        | value | thing => rfl
        | conjunction | disjunction | category | concept | space | someProperty => exact hleaf.elim
      show ((d.leafClause p depth leaf).read? H.world).join.map _ = _
      rw [hclause, hread]
      rfl
    obtain ⟨body, rfl⟩ := hbody
    rw [hcondition]
    exact .some (means_of_isClosed ⟨rfl, hself⟩)

end Hindsight

/-! ## Disjunctions -/

namespace Deployment

/-- The fields that a disjunction asks for are those that were noted for its members. -/
theorem mem_negatedFields {progress : Progress} {positions : List (List Nat)} {field : String} :
    field ∈ negatedFields progress positions ↔
      field ∈ positions.filterMap (progress.negated.get? ·) := by
  unfold negatedFields
  induction positions using List.reverseRecOn with
  | nil => simp
  | append_singleton positions position ih =>
      rw [List.foldl_append, List.filterMap_append, List.mem_append, ← ih, List.foldl_cons,
        List.foldl_nil, List.filterMap_cons, List.filterMap_nil]
      cases progress.negated.get? position with
      | none => exact (or_iff_left List.not_mem_nil).symm
      | some other =>
          dsimp only
          split
          · rename_i hmem
            rw [List.contains_iff_mem] at hmem
            refine (or_iff_left_of_imp fun h => ?_).symm
            rwa [List.mem_singleton.mp h]
          · rw [List.mem_append]

end Deployment

namespace Hindsight

variable {d : Deployment σ} {H : Hindsight d} {made : List Settled} {s : World σ × Progress}
  {fails : Prop} {senses : List Sense} {sense : Sense}

/-- A disjunction selects what one of its members means, of the documents with the fields that were
noted. -/
theorem comes_disjoined {clauses : List (List Nat × Json)} {fields : List String}
    (h : H.Kept s made) (hclauses : H.Fine s → H.Express made (clauses.map (·.2)) senses ∧
      clauses.filterMap (fun clause => s.2.negated.get? clause.1) = fields) :
    (Deployment.disjoined clauses : Compiling σ (Option Json)).Meets s
      (H.Comes made s (fun _ => False) fails fun found made' _ => H.Expresses made' found
        ((Sense.any senses).map fun meant doc =>
          meant doc && fields.all fun field => !(doc field).isEmpty)) := by
  unfold Meets
  rw [Deployment.outcome_disjoined]
  refine ⟨by rintro _ ⟨⟩, ?_⟩
  rintro _ ⟨⟩
  refine ⟨made, List.Subset.refl _, h, .of_eq rfl rfl, fun hfine => ⟨hfine, ?_⟩⟩
  obtain ⟨hexpress, hnoted⟩ := hclauses hfine
  have hjoined := expresses_any hexpress
  have hfields : ∀ doc : Indexed, fields.all (fun field => !(doc field).isEmpty) =
      (Deployment.negatedFields s.2 (clauses.map (·.1))).all fun field => !(doc field).isEmpty := by
    intro doc
    rw [Bool.eq_iff_iff, List.all_eq_true, List.all_eq_true]
    refine forall_congr' fun field => imp_congr_left ?_
    rw [Deployment.mem_negatedFields, List.filterMap_map, ← hnoted]
    rfl
  cases hquery : Deployment.joined .should (clauses.map (·.2)) with
  | none =>
      rw [hquery] at hjoined
      cases hany : Sense.any senses with
      | none => exact .none
      | some meant =>
          rw [hany] at hjoined
          cases hjoined
  | some query =>
      rw [hquery] at hjoined
      obtain ⟨hany, hmeans⟩ := hjoined.means
      rw [hany]
      refine .some ?_
      split
      · rename_i hempty
        refine ⟨hmeans.1, fun state hstate hin x hx => ?_⟩
        dsimp only
        rw [hfields, List.isEmpty_iff.mp hempty, List.all_nil, Bool.and_true]
        exact hmeans.2 state hstate hin x hx
      · refine means_compound fun state hstate hin x hx => ?_
        dsimp only
        rw [Clause.holds_must, List.all_cons, hmeans.2 state hstate hin x hx, hfields, List.all_map]
        simp [Function.comp_def]

/-- A clause for which there is no document means nothing. -/
theorem means_nothing : H.Means made Clause.nothing fun _ => false := by
  refine ⟨rfl, fun state _ _ x _ => ?_⟩
  exact (Clause.holds_terms _ _ "_id" []).trans rfl

/-- One choice alone is as good as its clause. -/
theorem Expresses.choice {found : Option Json} (h : H.Expresses made found sense) :
    H.Expresses made (found.map fun clause => Clause.compound .should [clause]) sense := by
  cases h with
  | none => exact .none
  | some hmeans =>
      refine .some (means_compound fun state hstate hin x hx => ?_)
      rw [Clause.holds_should, List.any_cons, List.any_nil, Bool.or_false, hmeans.2 state hstate hin x hx]
      rfl

end Hindsight

end FactIndex
