import FactIndex.Proofs.Compile.Direct
import FactIndex.Proofs.Compile.Meant

/-!
# The nodes of a compiled description

By induction on the tree, every node of a description without inverse properties comes to a clause that
selects what the node means. What a negated condition notes is said along with it, since the disjunction
above asks for it.

How concepts are expanded is left open here: it is enough that they are expanded to what they mean.

## Main definitions

* `Hindsight.Expands`: concepts are expanded to what they mean.
* `Hindsight.Good`, `Hindsight.GoodMembers`: what nodes come to.
* `Hindsight.comes_node`, `Hindsight.comes_property`: the induction.
-/

namespace FactIndex

open FactIndex.Effect FactIndex.Compiling Relation

variable {σ : Type}

namespace Deployment

variable {d : Deployment σ}

/-- The clauses of the members are those of the first and those of the others. -/
theorem compileMembers_cons (expand : Expansion σ) (path : List Nat) (i : Nat) (m : Description)
    (ms : List Description) : d.compileMembers expand path i (m :: ms) =
      d.compileNode expand true (path ++ [i]) m >>= fun found =>
        d.compileMembers expand path (i + 1) ms >>= fun rest =>
          pure ((found.toList.map fun clause => (path ++ [i], clause)) ++ rest) := by
  rw [compileMembers]
  refine congrArg (_ >>= ·) (funext fun found => ?_)
  cases found <;> rfl

end Deployment

namespace Hindsight

open Deployment

variable {d : Deployment σ} {H : Hindsight d} {made made' : List Settled} {stack : List String}
  {s t : World σ × Progress} {scope : List Nat → Prop} {fails : Prop} {expand : Expansion σ}
  {p q : Property} {path : List Nat} {depth qdepth : Option Int} {node inner : Description}
  {sense : Sense}

/-! ## What nodes come to -/

/-- Concepts that do not lead back to those that are being expanded are expanded to what they mean. -/
def Expands (H : Hindsight d) (stack : List String) (fails : Prop) (expand : Expansion σ) : Prop :=
  ∀ isMember path (c : Entity) made s,
    (∀ above ∈ stack, TransGen (Concepts.RefersTo H.world.catalog.concepts) above c.hash) →
    H.Ready stack (Beneath path 0) made s → (expand isMember path c).Meets s
      (H.Comes made s (Beneath path 0) fails fun found made' _ =>
        H.Expresses made' found (H.meant c.hash))

/-- What is asked of a description in this world. -/
abbrev Suits (H : Hindsight d) (stack : List String) (fails : Prop) (node : Description) : Prop :=
  node.Suits H.world.catalog.concepts stack fails

/-- What a node comes to: a clause that selects what is meant, and a note about it at its place if there
is to be one. -/
abbrev Good (H : Hindsight d) (path : List Nat) (node : Description) (sense : Sense) (found : Option Json)
    (made : List Settled) (t : World σ × Progress) : Prop :=
  H.Expresses made found sense ∧ (found.bind fun _ => t.2.negated.get? path) = H.lexicon.noted node

/-- What is compiled below a place notes nothing at the place itself. -/
theorem Ready.unnoted (h : H.Ready stack (path <+: ·) made s) {x : Compiling σ (Option Json)}
    (hnode : H.lexicon.noted node = none) (hx : x.Meets s
      (H.Comes made s (Beneath path 0) fails fun found made' _ => H.Expresses made' found sense)) :
    x.Meets s (H.Comes made s (path <+: ·) fails (H.Good path node sense)) := by
  refine Comes.mono hx (fun _ => Beneath.isPrefix) fun found made' t _ hwithin _ _ hexpresses => ?_
  refine ⟨hexpresses, ?_⟩
  rw [hwithin.negated path Beneath.not_self, h.fresh path List.prefix_rfl, hnode]
  cases found <;> rfl

/-- What several nodes come to. -/
abbrev GoodMembers (H : Hindsight d) (ds : List Description) (clauses : List (List Nat × Json))
    (made : List Settled) (t : World σ × Progress) : Prop :=
  H.Express made (clauses.map (·.2)) (H.lexicon.meanings H.meant ds) ∧
    clauses.filterMap (fun clause => t.2.negated.get? clause.1) = ds.filterMap H.lexicon.noted

/-- A node in front of others. -/
theorem GoodMembers.cons {position : List Nat} {found : Option Json} {clauses : List (List Nat × Json)}
    {ds : List Description}
    (hfound : H.Good position node (H.lexicon.meaning H.meant node) found made s)
    (h : H.GoodMembers ds clauses made' t) (hsub : made ⊆ made')
    (hsame : t.2.negated.get? position = s.2.negated.get? position) :
    H.GoodMembers (node :: ds) ((found.toList.map fun clause => (position, clause)) ++ clauses)
      made' t := by
  obtain ⟨hexpresses, hnoted⟩ := hfound
  obtain ⟨hexpress, hnotes⟩ := h
  refine ⟨?_, ?_⟩
  · rw [Lexicon.meanings, List.map_append, List.map_map]
    simpa [Function.comp_def] using Express.cons (hexpresses.mono hsub) hexpress
  · rw [List.filterMap_append, hnotes, List.filterMap_cons, ← hnoted, ← hsame]
    cases found with
    | none => rfl
    | some clause => cases hnote : t.2.negated.get? position <;> simp [hnote]

/-! ## Properties -/

/-- The site of a property. -/
theorem comes_propertySite (p : Property) (depth : Option Int) (h : H.Kept s made) :
    (act (d.propertySite p depth)).Meets s (H.Comes made s (fun _ => False) fails fun site _ _ =>
      H.lexicon.field p = Field.inGroup site.1 Field.numbers) := by
  refine Comes.mono (comes_read (d.repeatedBy_propertySite p depth) (d.answers_propertySite p depth).act
    (Within.of_tame (fun path => d.tame_propertySite path depth) _) h) (fun _ => id) ?_
  rintro site made' t - - - - ⟨hread, -, -⟩
  obtain ⟨lower, u, hsite⟩ := d.exists_propertySite_number p depth H.world
  rw [read?_eq_some, outcome_act, hsite] at hread
  cases hread
  rfl

/-- A direct property in front of another one, behind which there is no disjunction. -/
theorem comes_chained (hdirect : p.inverse = false) (hinner : ∀ ds, inner ≠ .disjunction ds)
    (hsuits : H.Suits stack fails inner) (h : H.Ready stack (path <+: ·) made s)
    (hx : ∀ made' t, H.Ready stack (path ++ [0] <+: ·) made' t →
      (d.compileProperty expand (path ++ [0]) none q qdepth inner).Meets t
        (H.Comes made' t (path ++ [0] <+: ·) fails (H.Good (path ++ [0]) (.someProperty q inner qdepth)
          (H.lexicon.meaningOf H.meant q qdepth inner)))) :
    (d.compileProperty expand path none p depth (.someProperty q inner qdepth)).Meets s
      (H.Comes made s (path <+: ·) fails (H.Good path
        (.someProperty p (.someProperty q inner qdepth) depth)
        (H.lexicon.meaningOf H.meant p depth (.someProperty q inner qdepth)))) := by
  refine h.unnoted rfl ?_
  rw [d.compileProperty_chained expand path depth qdepth hdirect hinner]
  refine Comes.bind_quiet (comes_propertySite p depth h.kept)
    fun site made' t _ hkept hwithin hsite => ?_
  have hready := (h.next_quiet hkept hwithin).mono fun position (hin : path ++ [0] <+: position) =>
    (List.prefix_append _ _).trans hin
  refine Comes.bind (hx made' t hready) (fun _ => Beneath.of_child) (fun _ => id)
    fun found made'' u _ hkept' _ hfound => ?_
  refine Comes.mono (comes_linked (some (Field.inGroup site.1 Field.numbers)) q hkept'
    (fun hu => (hfound hu).2.1) hsuits.times) (fun _ => False.elim)
    fun clause _ v _ _ hu _ hclause => ?_
  rw [Lexicon.meaningOf, (hsite (hfound hu).1).2]
  exact hclause

/-- The values of a property are given by a node. -/
theorem comes_object {x : Compiling σ (Option Json)} (hdirect : p.inverse = false) {group text : String}
    (hgroup : H.Fine s → H.lexicon.field p = Field.inGroup group Field.numbers)
    (hx : x.Meets s (H.Comes made s scope fails fun found made' _ => H.Expresses made' found sense)) :
    (x >>= fun found => d.objectClause p group text found.toList).Meets s
      (H.Comes made s scope fails fun found made' _ =>
        H.Expresses made' found (H.lexicon.points (H.lexicon.objectField p) sense)) := by
  refine Comes.bind_to_quiet hx fun found made' t _ hkept _ hfound => ?_
  have hcomes := @comes_objectClause _ d H made' t fails found.toList [sense] p hdirect group text hkept
    (fun ht => hgroup (hfound ht).1) fun ht => by
      have hexpress : H.Express made' [] [] := .nil
      simpa using Express.cons (hfound ht).2 hexpress
  rwa [Sense.all_singleton] at hcomes

/-- The site of a property and the text of its object come first. -/
theorem comes_text_bind {f : String × List Int → String → Compiling σ (Option Json)}
    (h : H.Ready stack (path <+: ·) made s)
    (htimes : ∀ time ∈ node.times, ¬ Description.IsLegible time → fails)
    (hf : ∀ site text made' t, H.Ready stack (Beneath path 0) made' t →
      (H.Fine t → H.lexicon.field p = Field.inGroup site.1 Field.numbers) →
      (f site text).Meets t (H.Comes made' t (Beneath path 0) fails fun found made'' _ =>
        H.Expresses made'' found sense)) :
    (act (d.propertySite p depth) >>= fun site => Effect.ofExcept node.queryText >>= fun text =>
      f site text).Meets s (H.Comes made s (Beneath path 0) fails fun found made' _ =>
        H.Expresses made' found sense) := by
  refine Comes.bind_quiet (comes_propertySite p depth h.kept) fun site made' t _ hkept hwithin hsite => ?_
  refine Comes.bind_quiet (comes_queryText hkept htimes) fun text made'' u _ hkept' hwithin' htext => ?_
  exact hf site text made'' u ((h.next_quiet hkept hwithin).next_quiet hkept' hwithin').children
    fun hu => (hsite (htext hu).1).2

/-- A node that stands on its own selects what it means. -/
theorem comes_standingNode (hnode : node.IsStanding) (isMember : Bool)
    (h : H.Ready stack (path <+: ·) made s)
    (htimes : ∀ time ∈ node.times, ¬ Description.IsLegible time → fails) :
    (d.compileNode expand isMember path node).Meets s (H.Comes made s (path <+: ·) fails
      (H.Good path node (H.lexicon.standing node))) := by
  have hnoted : H.lexicon.noted node = none := by
    cases node with
    | category | space | value => rfl
    | conjunction | disjunction | concept | someProperty | thing => exact hnode.elim
  rw [compileNode_standing expand isMember path hnode]
  refine Comes.bind_quiet (comes_visit h.kept htimes) fun _ made' t _ hkept hwithin _ => ?_
  refine (h.next_quiet hkept hwithin).unnoted hnoted ?_
  rw [← bind_pure_comp]
  refine Comes.bind (comes_standing hnode isMember hkept htimes) (fun _ => False.elim) (fun _ => id)
    fun clause made'' u _ hkept' _ hclause => Comes.pure hkept' fun hu => (hclause hu).2

/-- A node that stands on its own, as the object of a property. -/
theorem comes_standingObject {clause : Compiling σ Json} (hnode : node.IsStanding)
    (hdirect : p.inverse = false) {group text : String} (hclause : d.standingClause true node = clause)
    (hgroup : H.Fine s → H.lexicon.field p = Field.inGroup group Field.numbers)
    (h : H.Kept s made) (htimes : ∀ time ∈ node.times, ¬ Description.IsLegible time → fails) :
    (d.visit node >>= fun _ => clause >>= fun clause => d.objectClause p group text [clause]).Meets s
      (H.Comes made s (Beneath path 0) fails fun found made' _ => H.Expresses made' found
        (H.lexicon.points (H.lexicon.objectField p) (H.lexicon.standing node))) := by
  subst hclause
  refine Comes.bind_quiet (comes_visit h htimes) fun _ made' t _ hkept _ ht => ?_
  have hobject := @comes_object _ d H made' t (fun _ => False) fails p (H.lexicon.standing node)
    (some <$> d.standingClause true node) hdirect group text (fun hfine => hgroup (ht hfine).1) ?_
  · simp only [bind_map_left, Option.toList_some] at hobject
    exact Comes.widen hobject fun _ => False.elim
  · rw [← bind_pure_comp]
    exact Comes.bind_quiet (comes_standing hnode true hkept htimes)
      fun clause made'' u _ hkept' _ hclause => Comes.pure hkept' fun hu => (hclause hu).2

/-! ## The induction -/

mutual

/-- By induction on the description, with the lookups made so far generalised: each node is compiled
after others, whose lookups it may share. -/
theorem comes_node (hexpand : H.Expands stack fails expand) (isMember : Bool) (path : List Nat) :
    (node : Description) → H.Suits stack fails node → ∀ made s, H.Ready stack (path <+: ·) made s →
      (d.compileNode expand isMember path node).Meets s (H.Comes made s (path <+: ·) fails
        (H.Good path node (H.lexicon.meaning H.meant node)))
  | .conjunction ds, hsuits, made, s, h => by
      rw [compileNode]
      refine Comes.bind_quiet (comes_visit h.kept hsuits.times) fun _ made' t _ hkept hwithin _ => ?_
      have hready := h.next_quiet hkept hwithin
      refine hready.unnoted rfl ?_
      refine Comes.bind_to_quiet (comes_members hexpand path 0 ds hsuits.of_conjunction made' t
        hready.children) fun clauses made'' u _ hkept' _ hclauses => ?_
      rw [Lexicon.meaning]
      exact Comes.pure hkept' fun hu => expresses_all (hclauses hu).2.1
  | .disjunction ds, hsuits, made, s, h => by
      rw [compileNode]
      refine Comes.bind_quiet (comes_visit h.kept hsuits.times) fun _ made' t _ hkept hwithin _ => ?_
      have hready := h.next_quiet hkept hwithin
      refine hready.unnoted rfl ?_
      refine Comes.bind_to_quiet (comes_members hexpand path 0 ds hsuits.of_disjunction made' t
        hready.children) fun clauses made'' u _ hkept' _ hclauses => ?_
      rw [Lexicon.meaning]
      exact comes_disjoined hkept' fun hu => (hclauses hu).2
  | .category categories cdepth negated, hsuits, made, s, h => by
      rw [Lexicon.meaning]
      exact comes_standingNode (by trivial) isMember h hsuits.times
  | .space n, hsuits, made, s, h => by
      rw [Lexicon.meaning]
      exact comes_standingNode (by trivial) isMember h hsuits.times
  | .value item comparator property, hsuits, made, s, h => by
      rw [Lexicon.meaning]
      have hstanding : (Description.value item comparator property).IsStanding := fun p hp => by
        have hdirect := hsuits.isDirect
        rw [Description.isDirect, Option.mem_def.mp hp] at hdirect
        simpa using hdirect
      exact comes_standingNode hstanding isMember h hsuits.times
  | .concept c, hsuits, made, s, h => by
      rw [compileNode]
      refine Comes.bind_quiet (comes_visit h.kept hsuits.times) fun _ made' t _ hkept hwithin _ => ?_
      have hready := h.next_quiet hkept hwithin
      refine hready.unnoted rfl ?_
      rw [Lexicon.meaning]
      exact hexpand isMember path c made' t (fun above habove =>
        hsuits.concepts above habove c (by simp [Description.concepts])) hready.children
  | .someProperty p inner depth, hsuits, made, s, h => by
      rw [compileNode]
      refine Comes.bind_quiet (comes_visit h.kept hsuits.times) fun _ made' t _ hkept hwithin _ => ?_
      rw [Lexicon.meaning]
      exact comes_property hexpand path p depth inner hsuits.of_someProperty.1 hsuits.of_someProperty.2
        made' t (h.next_quiet hkept hwithin)
  | .thing negated, hsuits, made, s, h => by
      rw [compileNode]
      refine Comes.bind_quiet (comes_visit h.kept hsuits.times) fun _ made' t _ hkept hwithin _ => ?_
      refine (h.next_quiet hkept hwithin).unnoted rfl (Comes.pure hkept fun _ => ?_)
      rw [Lexicon.meaning]
      split
      · exact .some means_nothing
      · exact .none

theorem comes_members (hexpand : H.Expands stack fails expand) (path : List Nat) :
    (i : Nat) → (ds : List Description) → (∀ m ∈ ds, H.Suits stack fails m) → ∀ made s,
      H.Ready stack (Beneath path i) made s →
      (d.compileMembers expand path i ds).Meets s (H.Comes made s (Beneath path i) fails
        (H.GoodMembers ds))
  | i, [], hsuits, made, s, h => by
      rw [compileMembers]
      exact Comes.pure h.kept fun _ => ⟨.nil, rfl⟩
  | i, m :: ms, hsuits, made, s, h => by
      rw [compileMembers_cons]
      refine Comes.bind (comes_node hexpand true (path ++ [i]) m (hsuits m List.mem_cons_self) made s
        (h.mono fun _ => Beneath.of_child)) (fun _ => Beneath.of_child) (fun _ => id)
        fun found made' t _ hkept hwithin hfound => ?_
      have hrest := comes_members hexpand path (i + 1) ms
        (fun m hm => hsuits m (List.mem_cons_of_mem _ hm)) made' t
        (h.next hkept hwithin fun _ hin => ⟨hin.of_succ, hin.not_child⟩)
      refine Comes.bind_to_quiet (Comes.mono hrest (fun _ => Beneath.of_succ)
        fun clauses made'' u hsub hwithin' ht _ hclauses => GoodMembers.cons (hfound ht).2 hclauses hsub
          (hwithin'.negated _ fun hin => hin.not_child List.prefix_rfl)) ?_
      exact fun clauses made'' u _ hkept' _ hclauses => Comes.pure hkept' fun hu => (hclauses hu).2

theorem comes_property (hexpand : H.Expands stack fails expand) (path : List Nat) (p : Property)
    (depth : Option Int) : (inner : Description) → p.inverse = false → H.Suits stack fails inner →
    ∀ made s, H.Ready stack (path <+: ·) made s →
      (d.compileProperty expand path none p depth inner).Meets s (H.Comes made s (path <+: ·) fails
        (H.Good path (.someProperty p inner depth) (H.lexicon.meaningOf H.meant p depth inner)))
  | .someProperty q (.disjunction ds) qdepth, hdirect, hsuits, made, s, h => by
      refine h.unnoted rfl ?_
      rw [compileProperty]
      refine Comes.bind_quiet (comes_propertySite p depth h.kept)
        fun site made' t _ hkept hwithin hsite => ?_
      obtain ⟨hqdirect, hinner⟩ := hsuits.of_someProperty
      refine Comes.bind_to_quiet (Comes.widen (comes_alternatives hexpand (path ++ [0])
        (some (Field.inGroup site.1 Field.numbers)) q qdepth 0 ds hqdirect hinner.of_disjunction made' t
        ((h.next_quiet hkept hwithin).mono fun _ hin => (List.prefix_append _ _).trans hin.isPrefix))
        fun _ hin => Beneath.of_child hin.isPrefix)
        fun clauses made'' u _ hkept' _ hclauses => ?_
      rw [chainClause_direct hdirect, pure_bind, linked_none]
      refine Comes.pure hkept' fun hu => ?_
      obtain ⟨ht, hexpress⟩ := hclauses hu
      rw [Lexicon.meaningOf, Lexicon.meaningOf, (hsite ht).2, ← Sense.any_map_points]
      exact expresses_any hexpress
  | .someProperty q (.conjunction ds) qdepth, hdirect, hsuits, made, s, h =>
      comes_chained hdirect (by rintro _ ⟨⟩) hsuits.of_someProperty.2 h (comes_property hexpand
        (path ++ [0]) q qdepth (.conjunction ds) hsuits.of_someProperty.1
        hsuits.of_someProperty.2)
  | .someProperty q (.category cs cdepth negated) qdepth, hdirect, hsuits, made, s, h =>
      comes_chained hdirect (by rintro _ ⟨⟩) hsuits.of_someProperty.2 h (comes_property hexpand
        (path ++ [0]) q qdepth (.category cs cdepth negated) hsuits.of_someProperty.1
        hsuits.of_someProperty.2)
  | .someProperty q (.concept c) qdepth, hdirect, hsuits, made, s, h =>
      comes_chained hdirect (by rintro _ ⟨⟩) hsuits.of_someProperty.2 h (comes_property hexpand
        (path ++ [0]) q qdepth (.concept c) hsuits.of_someProperty.1
        hsuits.of_someProperty.2)
  | .someProperty q (.space n) qdepth, hdirect, hsuits, made, s, h =>
      comes_chained hdirect (by rintro _ ⟨⟩) hsuits.of_someProperty.2 h (comes_property hexpand
        (path ++ [0]) q qdepth (.space n) hsuits.of_someProperty.1
        hsuits.of_someProperty.2)
  | .someProperty q (.someProperty q' inner' depth') qdepth, hdirect, hsuits, made, s, h =>
      comes_chained hdirect (by rintro _ ⟨⟩) hsuits.of_someProperty.2 h (comes_property hexpand
        (path ++ [0]) q qdepth (.someProperty q' inner' depth') hsuits.of_someProperty.1
        hsuits.of_someProperty.2)
  | .someProperty q (.value item comparator property) qdepth, hdirect, hsuits, made, s, h =>
      comes_chained hdirect (by rintro _ ⟨⟩) hsuits.of_someProperty.2 h (comes_property hexpand
        (path ++ [0]) q qdepth (.value item comparator property) hsuits.of_someProperty.1
        hsuits.of_someProperty.2)
  | .someProperty q (.thing negated) qdepth, hdirect, hsuits, made, s, h =>
      comes_chained hdirect (by rintro _ ⟨⟩) hsuits.of_someProperty.2 h (comes_property hexpand
        (path ++ [0]) q qdepth (.thing negated) hsuits.of_someProperty.1
        hsuits.of_someProperty.2)
  | .value item comparator property, hdirect, hsuits, made, s, h => by
      rw [Lexicon.meaningOf]
      exact comes_leaf hdirect (by trivial) expand path depth h hsuits.times
  | .thing negated, hdirect, hsuits, made, s, h => by
      rw [Lexicon.meaningOf]
      exact comes_leaf hdirect (by trivial) expand path depth h hsuits.times
  | .disjunction ds, hdirect, hsuits, made, s, h => by
      refine h.unnoted rfl ?_
      rw [compileProperty]
      refine Comes.bind_quiet (comes_propertySite p depth h.kept) fun _ made' t _ hkept hwithin _ => ?_
      refine Comes.bind_to_quiet (Comes.widen (comes_alternatives hexpand (path ++ [0]) none p depth 0 ds
        hdirect hsuits.of_disjunction made' t
        ((h.next_quiet hkept hwithin).mono fun _ hin => (List.prefix_append _ _).trans hin.isPrefix))
        fun _ hin => Beneath.of_child hin.isPrefix)
        fun clauses made'' u _ hkept' _ hclauses => ?_
      rw [linked_none]
      refine Comes.pure hkept' fun hu => ?_
      rw [Lexicon.meaningOf]
      simpa using (expresses_any (hclauses hu).2).choice
  | .conjunction ds, hdirect, hsuits, made, s, h => by
      refine h.unnoted rfl ?_
      rw [compileProperty, Lexicon.meaningOf]
      simp only [linked_none, bind_pure]
      refine comes_text_bind h hsuits.times fun site text made' t hready hsite => ?_
      refine Comes.bind_to_quiet (Comes.widen (comes_members hexpand (path ++ [0]) 0 ds
        hsuits.of_conjunction made' t (hready.mono fun _ hin => .of_child hin.isPrefix))
        fun _ hin => .of_child hin.isPrefix) fun clauses made'' u _ hkept' _ hclauses => ?_
      exact comes_objectClause hdirect text hkept' (fun hu => hsite (hclauses hu).1)
        fun hu => (hclauses hu).2.1
  | .category categories cdepth negated, hdirect, hsuits, made, s, h => by
      refine h.unnoted rfl ?_
      rw [compileProperty, Lexicon.meaningOf]
      simp only [linked_none, bind_pure]
      exact comes_text_bind h hsuits.times fun site text made' t hready hsite =>
        comes_standingObject (by trivial) hdirect rfl hsite hready.kept hsuits.times
  | .concept c, hdirect, hsuits, made, s, h => by
      refine h.unnoted rfl ?_
      rw [compileProperty, Lexicon.meaningOf]
      simp only [linked_none, bind_pure]
      refine comes_text_bind h hsuits.times fun site text made' t hready hsite => ?_
      refine Comes.bind_quiet (comes_visit hready.kept hsuits.times)
        fun _ made'' u _ hkept hwithin hu => ?_
      have hconcept := hexpand true (path ++ [0]) c made'' u
        (fun above habove => hsuits.concepts above habove c (by simp [Description.concepts]))
        ((hready.next_quiet hkept hwithin).mono fun _ hin => .of_child hin.isPrefix)
      exact Comes.widen (comes_object hdirect (fun hfine => hsite (hu hfine).1) hconcept)
        fun _ hin => .of_child hin.isPrefix
  | .space n, hdirect, hsuits, made, s, h => by
      refine h.unnoted rfl ?_
      rw [compileProperty, Lexicon.meaningOf]
      simp only [linked_none, bind_pure]
      exact comes_text_bind h hsuits.times fun site text made' t hready hsite =>
        @comes_standingObject _ d H made' t fails p path (.space n)
          (pure (Clause.term "subject.namespace" (.int n))) (by trivial) hdirect _ text rfl hsite
          hready.kept hsuits.times

theorem comes_alternatives (hexpand : H.Expands stack fails expand) (path : List Nat)
    (chain : Option String) (p : Property) (depth : Option Int) : (i : Nat) → (ds : List Description) →
    p.inverse = false → (∀ m ∈ ds, H.Suits stack fails m) →
    ∀ made s, H.Ready stack (Beneath path i) made s →
      (d.compileAlternatives expand path chain p depth i ds).Meets s
        (H.Comes made s (Beneath path i) fails fun clauses made' _ => H.Express made' clauses
          ((H.lexicon.meaningsOf H.meant p depth ds).map (H.lexicon.reached chain)))
  | i, [], hdirect, hsuits, made, s, h => by
      rw [compileAlternatives]
      exact Comes.pure h.kept fun _ => .nil
  | i, m :: ms, hdirect, hsuits, made, s, h => by
      rw [compileAlternatives, d.compileProperty_linked]
      simp only [bind_assoc]
      refine Comes.bind (comes_property hexpand (path ++ [i]) p depth m hdirect
        (hsuits m List.mem_cons_self) made s (h.mono fun _ => Beneath.of_child))
        (fun _ => Beneath.of_child) (fun _ => id) fun found made' t _ hkept hwithin hfound => ?_
      refine Comes.bind_quiet (comes_linked chain p hkept (fun ht => (hfound ht).2.1)
        (hsuits m List.mem_cons_self).times) fun found' made'' u _ hkept' hwithin' hfound' => ?_
      have hrest := comes_alternatives hexpand path chain p depth (i + 1) ms hdirect
        (fun m hm => hsuits m (List.mem_cons_of_mem _ hm)) made'' u
        ((h.next hkept hwithin fun _ hin => ⟨hin.of_succ, hin.not_child⟩).next_quiet hkept' hwithin')
      refine Comes.bind_to_quiet (Comes.mono hrest (fun _ => Beneath.of_succ)
        fun clauses made₃ v hsub _ hu _ hclauses => Express.cons ((hfound' hu).2.mono hsub) hclauses) ?_
      exact fun clauses made₃ v _ hkept'' _ hclauses => Comes.pure hkept'' fun hv => by
        rw [Lexicon.meaningsOf]
        exact (hclauses hv).2

end

end Hindsight

end FactIndex
