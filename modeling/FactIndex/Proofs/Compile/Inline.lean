import FactIndex.Compile.Node
import FactIndex.Proofs.Compile.Meaning
import FactIndex.Proofs.Effect
import FactIndex.Proofs.Search.Matching

/-!
# Descriptions compile to what they mean

A description that a document answers by itself is compiled to a clause that selects exactly the
documents it describes. The only thing that can go wrong is a time that is too far off.

Compiling such a description asks the catalog for numbers that it knows already, so the world stays as
it is, and no condition is negated, so no disjunction asks for a field.

## Main definitions

* `Compiling.Settles`: a compilation that leaves the world alone, with its condition of success.
* `Deployment.compile_selects`: the query of a description and its meaning.
-/

namespace FactIndex

open FactIndex.Calendar

variable {σ α β : Type}

/-! ## Numbers that are known -/

theorem outcome_numberOf {w : World σ} {item : Numbered} {n : Int}
    (h : w.catalog.numberOf? item = some n) : (numberOf item).outcome w = (.ok n, w) := by
  simp only [numberOf, Effect.outcome_make, Catalog.number_of_known w.catalog item h]

/-- A world in which all numbers that are asked for are known stays as it is. -/
theorem outcome_mapM {f : α → Action σ β} {g : α → β} {w : World σ} (items : List α)
    (h : ∀ a ∈ items, (f a).outcome w = (.ok (g a), w)) :
    (items.mapM f).outcome w = (.ok (items.map g), w) := by
  induction items with
  | nil => simp
  | cons a items ih =>
      have hfirst := h a (by simp)
      have hrest := ih fun b hb => h b (by simp [hb])
      rw [List.mapM_cons, Effect.outcome_bind_of_ok hfirst, Effect.outcome_bind_of_ok hrest]
      rfl

theorem outcome_numbersOf {w : World σ} (items : List Numbered)
    (h : ∀ item ∈ items, w.catalog.Knows item) :
    (items.mapM numberOf).outcome w = (.ok (w.catalog.numbersOf items), w) := by
  induction items with
  | nil => simp [Catalog.numbersOf]
  | cons item items ih =>
      rcases h item (by simp) with ⟨n, hn⟩
      have hrest := ih fun other hmem => h other (by simp [hmem])
      rw [List.mapM_cons, Effect.outcome_bind_of_ok (outcome_numberOf hn),
        Effect.outcome_bind_of_ok hrest, Catalog.numbersOf_cons hn]
      rfl

theorem outcome_catalog (w : World σ) : (catalog : Action σ Catalog).outcome w = (.ok w.catalog, w) :=
  rfl

theorem outcome_below {w : World σ} {item : Numbered} {depth : Option Int}
    (h : ∀ other ∈ w.catalog.lower item depth, w.catalog.Knows other) :
    (Deployment.below item depth).outcome w =
      (.ok (w.catalog.numbersOf (w.catalog.lower item depth)), w) := by
  unfold Deployment.below
  rw [Effect.outcome_bind_of_ok (outcome_catalog w)]
  cases depth <;> exact outcome_numbersOf _ h

/-! ## Compilations that leave the world alone -/

namespace Compiling

/-- A compilation leaves the world alone and negates no condition. It succeeds under exactly one
condition, and its answer is good then. -/
def Settles (w : World σ) (x : Compiling σ α) (fine : Prop) (good : α → Prop) : Prop :=
  ∀ p : Progress, p.negated = [] → x.Meets (w, p) fun r s =>
    s.1 = w ∧ s.2.negated = [] ∧
      match r with
      | .ok a => fine ∧ good a
      | .error _ => ¬ fine

namespace Settles

variable {w : World σ} {x : Compiling σ α} {f : α → Compiling σ β} {fine fine' : Prop}
  {good : α → Prop} {good' : β → Prop}

theorem pure {a : α} (h : good a) : Settles w (Pure.pure a) True good := by
  intro p hp
  exact ⟨rfl, hp, trivial, h⟩

theorem bind (hx : Settles w x fine good) (hf : ∀ a, good a → Settles w (f a) fine' good') :
    Settles w (x >>= f) (fine ∧ fine') good' := by
  intro p hp
  refine (hx p hp).bind ?_ ?_
  · rintro a ⟨_, p'⟩ ⟨rfl, hp', hfine, hgood⟩
    refine (hf a hgood p' hp').mono ?_
    rintro (e | b) s ⟨hw, hn, hr⟩
    · exact ⟨hw, hn, fun h => hr h.2⟩
    · exact ⟨hw, hn, ⟨hfine, hr.1⟩, hr.2⟩
  · rintro e s ⟨hw, hn, hr⟩
    exact ⟨hw, hn, fun h => hr h.1⟩

/-- Conditions of success that come to the same. -/
theorem iff (hx : Settles w x fine good) (h : fine ↔ fine') : Settles w x fine' good := by
  rwa [← propext h]

theorem mono {good' : α → Prop} (hx : Settles w x fine good) (h : ∀ a, fine → good a → good' a) :
    Settles w x fine good' := by
  intro p hp
  refine (hx p hp).mono ?_
  rintro (e | a) s ⟨hw, hn, hr⟩
  · exact ⟨hw, hn, hr⟩
  · exact ⟨hw, hn, hr.1, h a hr.1 hr.2⟩

/-- A first part that cannot fail. -/
theorem bind_of_total (hx : Settles w x True good)
    (hf : ∀ a, good a → Settles w (f a) fine' good') : Settles w (x >>= f) fine' good' :=
  (hx.bind hf).iff (Iff.of_eq (true_and _))

/-- A second part that cannot fail. -/
theorem bind_total (hx : Settles w x fine good) (hf : ∀ a, good a → Settles w (f a) True good') :
    Settles w (x >>= f) fine good' :=
  (hx.bind hf).iff (Iff.of_eq (and_true _))

/-- A result that may be a failure succeeds if it is none. -/
theorem ofExcept (r : Except Failure α) :
    Settles w (Effect.ofExcept r) (∃ a, r = .ok a) (r = .ok ·) := by
  intro p hp
  unfold Effect.Meets
  rw [Effect.outcome_ofExcept]
  refine ⟨rfl, hp, ?_⟩
  cases r <;> simp

/-- An action whose outcome is known and that leaves the world alone. -/
theorem act {y : Action σ α} {r : Except Failure α} (h : y.outcome w = (r, w)) :
    Settles w (Compiling.act y) (∃ a, r = .ok a) (r = .ok ·) := by
  intro p hp
  unfold Effect.Meets Compiling.act
  rw [Effect.outcome_onPart, h]
  refine ⟨rfl, hp, ?_⟩
  cases r <;> simp

theorem act_of_ok {y : Action σ α} {a : α} (h : y.outcome w = (.ok a, w)) :
    Settles w (Compiling.act y) True (a = ·) :=
  ((act h).iff (by simp)).mono fun _ _ hb => Except.ok.inj hb

theorem note {g : Progress → Progress} (h : ∀ p, (g p).negated = p.negated) :
    Settles w (Compiling.note g) True (fun _ => True) := by
  intro p hp
  exact ⟨rfl, (h p).trans hp, trivial, trivial⟩

theorem progress : Settles w Compiling.progress True (fun p => p.negated = []) := by
  intro p hp
  exact ⟨rfl, hp, trivial, hp⟩

end Settles

end Compiling

/-! ## Visits -/

namespace Description

private theorem isOk_bind_pure (x : Except Failure α) (f : α → β) :
    (∃ b, (x >>= fun a => pure (f a)) = .ok b) ↔ ∃ a, x = .ok a := by
  cases x <;> simp [Bind.bind, pure, Except.bind, Except.pure]

private theorem isOk_label (item : Item) :
    (∃ s, item.label = .ok s) ↔ ∀ t ∈ item.times, ∃ s, Time.label t = .ok s := by
  cases item <;> simp [Item.label, Item.times]

mutual

/-- Nothing but the times decides whether a description has a text. -/
theorem isOk_textAt (setting : Setting) : (d : Description) →
    ((∃ s, d.textAt setting = .ok s) ↔ ∀ t ∈ d.times, ∃ s, Time.label t = .ok s)
  | .conjunction ds => by
      simp only [textAt, times, isOk_bind_pure, isOk_textsAt]
  | .disjunction ds => by
      simp only [textAt, times, isOk_bind_pure, isOk_textsAt]
  | .category _ _ _ => by simp [textAt, times, pure, Except.pure]
  | .concept _ => by simp [textAt, times, pure, Except.pure]
  | .space _ => by simp [textAt, times, pure, Except.pure]
  | .someProperty p inner depth => by
      have hinner := isOk_textAt .chain inner
      rw [textAt, times, isOk_bind_pure, hinner]
  | .value item comparator property => by
      rw [textAt, times, isOk_bind_pure, isOk_label]
  | .thing _ => by simp [textAt, times, pure, Except.pure]

theorem isOk_textsAt (setting : Setting) : (ds : List Description) →
    ((∃ ss, textsAt setting ds = .ok ss) ↔ ∀ t ∈ allTimes ds, ∃ s, Time.label t = .ok s)
  | [] => by simp [textsAt, allTimes, pure, Except.pure]
  | d :: ds => by
      have hd := isOk_textAt setting d
      have hds := isOk_textsAt setting ds
      simp only [allTimes, List.mem_append, or_imp, forall_and, ← hd, ← hds, textsAt]
      cases d.textAt setting with
      | error e => simp [Bind.bind, Except.bind]
      | ok s => simpa [Bind.bind, Except.bind] using isOk_bind_pure (textsAt setting ds) (s :: ·)

end

theorem isOk_portrait (d : Description) :
    (∃ ms, d.portrait = .ok ms) ↔ ∀ t ∈ d.times, ∃ s, Time.label t = .ok s := by
  rw [portrait, isOk_bind_pure, queryText, isOk_textAt]

end Description

namespace Deployment

open Compiling

variable {w : World σ}

theorem settles_visit (d : Deployment σ) (node : Description) :
    Settles w (d.visit node)
      (d.settings.query.nodeLog = true → ∀ t ∈ node.times, ∃ s, Time.label t = .ok s)
      (fun _ => True) := by
  unfold visit
  cases hlog : d.settings.query.nodeLog with
  | false =>
      refine (Settles.pure trivial).iff ?_
      simp
  | true =>
      rw [if_pos rfl]
      refine (Settles.bind (Settles.ofExcept node.portrait) fun _ _ => Settles.note ?_).iff ?_
      · exact fun _ => rfl
      · rw [Description.isOk_portrait]
        simp

/-! ## Categories and namespaces -/

/-- The field has a number, or one of those below it. -/
theorem holds_memberClause (M : Matching) (doc : Indexed) (field : String) (number : Int)
    (lower : List Int) : Clause.holds M doc (memberClause field number lower) =
      (number :: lower).any fun n => M.hasValue doc field (.int n) := by
  unfold memberClause
  cases lower with
  | nil => simp
  | cons n lower => simp [Function.comp_def]

/-- A single clause needs no choice, and several are joined by one. -/
private theorem holds_choice (M : Matching) (doc : Indexed) {isMember : Bool} {clauses : List Json}
    (h : clauses ≠ []) : Clause.holds M doc
      (Clause.compound (if isMember && clauses.length ≤ 1 then .must else .should) clauses) =
        clauses.any (Clause.holds M doc) := by
  rcases clauses with _ | ⟨clause, _ | ⟨other, rest⟩⟩
  · exact absurd rfl h
  · cases isMember <;> simp
  · simp

private theorem any_eq_of_mem {p q : α → Bool} {items : List α} (h : ∀ a ∈ items, p a = q a) :
    items.any p = items.any q := by
  induction items with
  | nil => rfl
  | cons a items ih =>
      rw [List.any_cons, List.any_cons, h a (by simp), ih fun b hb => h b (by simp [hb])]

theorem outcome_categoryClause (d : Deployment σ) (isMember : Bool) {categories : List Entity}
    {depth : Option Int} {negated : Bool} (hne : categories ≠ [])
    (hknown : ∀ item ∈ Description.mentions w.catalog d.settings.query
      (.category categories depth negated), w.catalog.Knows item) :
    ∃ clause, (d.categoryClause isMember categories depth negated).outcome w = (.ok clause, w) ∧
      ∀ M doc, Clause.holds M doc clause =
        (Description.category categories depth negated).describes M w.catalog d.settings.query doc := by
  simp only [Description.mentions, List.mem_cons, List.mem_flatMap, Catalog.reach] at hknown
  rcases hknown _ (.inl rfl) with ⟨i, hi⟩
  let number (e : Entity) : Int := (w.catalog.numberOf? (.entity e)).getD 0
  have hnumber : ∀ e ∈ categories, w.catalog.numberOf? (.entity e) = some (number e) := by
    intro e he
    rcases hknown (.entity e) (.inr ⟨e, he, .inl rfl⟩) with ⟨n, hn⟩
    simp [number, hn]
  let field := Field.inGroup (Field.group i) Field.numbers
  let lower (e : Entity) := w.catalog.numbersOf (w.catalog.lower (.entity e) (d.depthOf depth))
  let numbered := (categories.map fun e => (number e, e)).mergeSort fun a b => a.1 ≤ b.1
  have hnumbered : (categories.mapM fun e => do return (← numberOf (.entity e), e)).outcome w =
      (.ok (categories.map fun e => (number e, e)), w) := by
    refine outcome_mapM categories fun e he => ?_
    rw [Effect.outcome_bind_of_ok (outcome_numberOf (hnumber e he))]
    rfl
  have hperm : numbered.Perm (categories.map fun e => (number e, e)) := List.mergeSort_perm _ _
  have hclauses : (numbered.mapM (d.oneCategory field depth)).outcome w =
      (.ok (numbered.map fun m => memberClause field m.1 (lower m.2)), w) := by
    refine outcome_mapM numbered fun m hm => ?_
    rcases List.mem_map.mp (hperm.mem_iff.mp hm) with ⟨e, he, rfl⟩
    have hbelow : (below (.entity e) (d.depthOf depth)).outcome w = (.ok (lower e), w) :=
      outcome_below fun other hother => hknown other (.inr ⟨e, he, .inr hother⟩)
    exact Effect.outcome_bind_of_ok hbelow _
  let clause := Clause.compound (if isMember && categories.length ≤ 1 then .must else .should)
    (numbered.map fun m => memberClause field m.1 (lower m.2))
  refine ⟨if negated then Clause.compound .mustNot [clause] else clause, ?_, ?_⟩
  · unfold categoryClause
    rw [Effect.outcome_bind_of_ok (outcome_numberOf hi), Effect.outcome_bind_of_ok hnumbered,
      Effect.outcome_bind_of_ok hclauses]
    exact Effect.outcome_pure _ _
  · intro M doc
    have hlength : categories.length =
        (numbered.map fun m => memberClause field m.1 (lower m.2)).length := by
      rw [List.length_map, hperm.length_eq, List.length_map]
    have hsome : (numbered.map fun m => memberClause field m.1 (lower m.2)) ≠ [] := by
      intro h
      rw [h] at hlength
      exact hne (List.eq_nil_of_length_eq_zero hlength)
    have hany : (numbered.map fun m => memberClause field m.1 (lower m.2)).any
        (Clause.holds M doc) = categories.any
          (Description.isMember M w.catalog doc (depth.or d.settings.query.depth)) := by
      rw [List.any_map, hperm.any_eq, List.any_map]
      refine any_eq_of_mem fun e he => ?_
      simp only [Function.comp_apply, holds_memberClause, Description.isMember, Catalog.reach,
        Catalog.numbersOf_cons (hnumber e he), Catalog.categoryField?, hi, Option.map_some,
        Option.any_some]
      rfl
    have hclause : Clause.holds M doc clause = categories.any
        (Description.isMember M w.catalog doc (depth.or d.settings.query.depth)) := by
      rw [← hany, ← holds_choice M doc hsome, ← hlength]
    cases negated <;> simp [Description.describes, hclause]

theorem holds_placed (M : Matching) (doc : Indexed) (isMember isFilter : Bool) (clause : Json) :
    Clause.holds M doc (placed isMember false isFilter clause) = Clause.holds M doc clause := by
  cases isMember <;> cases isFilter <;> simp [placed]

/-! ## Conditions on properties -/

/-- The value that an item is compared by is found without touching the world, if there is one. -/
theorem outcome_arrayValue {p : Property} {item : Item} {c : Comparator}
    (hplain : item.isPlainCondition c = true)
    (hknown : ∀ other ∈ item.mentions, w.catalog.Knows other) :
    ∃ r : Except Failure Json,
      (arrayValue (Field.ofProperty p) item c).outcome w = (r.map fun v => (item.arrayOf p, v), w) ∧
      item.asked? w.catalog = r.toOption ∧ (∀ v, r = .ok v → Clause.IsPlain v) ∧
      ((∃ v, r = .ok v) ↔ ∀ t ∈ item.times, ∃ x, TimeOf.dayNumber t = .ok x) := by
  cases item with
  | page e =>
      have hc : c = .eq := by simpa [Item.isPlainCondition] using hplain
      subst hc
      rcases hknown (.entity e) (by simp [Item.mentions]) with ⟨n, hn⟩
      refine ⟨.ok (.int n), ?_, by simp [Item.asked?, hn, Except.toOption], ?_, by simp [Item.times]⟩
      · exact Effect.outcome_bind_of_ok (outcome_numberOf hn) _
      · rintro v ⟨⟩
        exact Clause.isPlain_int n
  | number x =>
      refine ⟨.ok (.float x), rfl, rfl, ?_, by simp [Item.times]⟩
      rintro v ⟨⟩
      exact Clause.isPlain_float x
  | boolean b =>
      refine ⟨.ok (.bool b), rfl, rfl, ?_, by simp [Item.times]⟩
      rintro v ⟨⟩
      exact Clause.isPlain_bool b
  | time t =>
      refine ⟨Json.float <$> TimeOf.dayNumber t, ?_, rfl, ?_, ?_⟩
      · show (Effect.ofExcept (Json.float <$> TimeOf.dayNumber t) >>= _).outcome w = _
        rw [Effect.outcome_bind, Effect.outcome_ofExcept]
        cases TimeOf.dayNumber t <;> rfl
      · intro v hv
        cases hday : TimeOf.dayNumber t with
        | error e => rw [hday] at hv; cases hv
        | ok x =>
            rw [hday] at hv
            cases hv
            exact Clause.isPlain_float x
      · cases hday : TimeOf.dayNumber t <;> simp [Item.times, Functor.map, Except.map, hday]
  | text _ | uri _ | coordinate _ _ | area _ => simp [Item.isPlainCondition] at hplain

theorem ofProperty_eq (q : QuerySettings) (normalKeywords : Bool) (type : ValueType)
    (group array : String) {item : Item} (value : Json) (hplain : item.isPlainCondition .eq = true) :
    Condition.ofProperty q normalKeywords type group array item .eq value =
      .ok ⟨Clause.term (Field.inGroup group array) value, array, value, false, true⟩ := by
  cases item <;> first | rfl | simp [Item.isPlainCondition] at hplain

theorem ofProperty_range (q : QuerySettings) (normalKeywords : Bool) (type : ValueType)
    (group array : String) {item : Item} {c : Comparator} {bound : String} (value : Json)
    (hplain : item.isPlainCondition c = true) (hbound : c.bound? = some bound) :
    Condition.ofProperty q normalKeywords type group array item c value =
      .ok ⟨.single "range" (.single (Field.inGroup group array) (.single bound value)), array, value,
        false, false⟩ := by
  cases c <;> cases hbound <;>
    cases item <;> first | rfl | simp [Item.isPlainCondition] at hplain

/-- A plain condition makes a clause in the same way for each property, and one that is not
negated. -/
theorem ofProperty_plain (q : QuerySettings) (normalKeywords : Bool) (type : ValueType)
    (array : String) {item : Item} {c : Comparator} {value : Json}
    (hplain : item.isPlainCondition c = true) (hvalue : Clause.IsPlain value) :
    ∃ make, Clause.OfGroup make ∧
      (∀ M doc n, Clause.holds M doc (make n) =
        (doc (Field.inGroup (Field.group n) array)).any fun v => M.compares c v value) ∧
      ∀ n, ∃ m, Condition.ofProperty q normalKeywords type (Field.group n) array item c value = .ok m ∧
        m.clause = make n ∧ m.negated = false := by
  cases hbound : c.bound? with
  | none =>
      have hc : c = .eq := by
        cases c <;> cases hbound <;> cases item <;>
          simp [Item.isPlainCondition, Comparator.isRange] at hplain ⊢
      subst hc
      refine ⟨_, Clause.ofGroup_term array hvalue, fun M doc n => Clause.holds_term M doc _ _, ?_⟩
      exact fun n => ⟨_, ofProperty_eq q normalKeywords type _ array value hplain, rfl, rfl⟩
  | some bound =>
      refine ⟨_, Clause.ofGroup_range array hvalue (Clause.isInert_bound hbound), ?_, ?_⟩
      · intro M doc n
        exact Clause.holds_range M doc (by simp only [Clause.range, hbound])
      · exact fun n => ⟨_, ofProperty_range q normalKeywords type _ array value hplain hbound, rfl, rfl⟩

theorem normal_of_plain {item : Item} {c : Comparator} (hplain : item.isPlainCondition c = true) :
    c.normal = c := by
  cases c <;> first | rfl | cases item <;> simp [Item.isPlainCondition, Comparator.isRange] at hplain

/-- The group of a property, and the numbers below it. -/
theorem outcome_propertySite (d : Deployment σ) {p : Property} {depth : Option Int} {n : Int}
    (hn : w.catalog.numberOf? (.property p) = some n)
    (hlower : ∀ other ∈ w.catalog.lower (.property p) (d.depthOf depth), w.catalog.Knows other) :
    (d.propertySite p depth).outcome w =
      (.ok (Field.group n, w.catalog.numbersOf (w.catalog.lower (.property p) (d.depthOf depth))), w) := by
  unfold propertySite
  rw [Effect.outcome_bind_of_ok (outcome_numberOf hn),
    Effect.outcome_bind_of_ok (outcome_below hlower)]
  rfl

/-- A plain condition on a direct property, whose clause is the same for each property. -/
theorem settles_propertyCondition (d : Deployment σ) {p : Property} (n : Int) {item : Item}
    {c : Comparator} (property : Option Property) (hdirect : p.inverse = false)
    (hplain : item.isPlainCondition c = true)
    (hknown : ∀ other ∈ item.mentions, w.catalog.Knows other) :
    Settles w (d.propertyCondition p (Field.group n) item c property)
      (∀ t ∈ item.times, ∃ x, TimeOf.dayNumber t = .ok x) fun m =>
        m.negated = false ∧ ∃ make, Clause.OfGroup make ∧ m.clause = make n ∧
          ∀ M doc k, Clause.holds M doc (make k) =
            (doc (Field.inGroup (Field.group k) (item.arrayOf p))).any fun v =>
              (item.asked? w.catalog).any (M.compares c v) := by
  rcases outcome_arrayValue (p := p) hplain hknown with ⟨r, hr, hasked, hvalue, hfine⟩
  unfold propertyCondition
  rw [normal_of_plain hplain, hdirect]
  refine (Settles.bind_total (Settles.act hr) ?_).iff ?_
  · rintro ⟨array, value⟩ hpair
    have hr' : r = .ok value ∧ array = item.arrayOf p := by
      cases r <;> cases hpair
      exact ⟨rfl, rfl⟩
    rcases hr' with ⟨rfl, rfl⟩
    rcases ofProperty_plain d.settings.query d.settings.writer.normalKeywords p.valueType
      (item.arrayOf p) hplain (hvalue value rfl) with ⟨make, hgroup, hholds, hmake⟩
    rcases hmake n with ⟨m, hm, hclause, hnegated⟩
    refine (Settles.bind_total (Settles.ofExcept _) ?_).iff (by simp [hm])
    intro m' hm'
    obtain rfl : m = m' := Except.ok.inj (hm.symm.trans hm')
    refine Settles.pure ⟨hnegated, make, hgroup, hclause, ?_⟩
    simpa [hasked, Except.toOption] using hholds
  · rw [← hfine]
    cases r <;> simp [Except.map]

/-- The clause of a plain condition looks at the property and at what lies below it. -/
theorem settles_valueClause (d : Deployment σ) (path : List Nat) {p : Property} (n : Int)
    (lower : List Int) {item : Item} {c : Comparator} (property : Option Property)
    (hdirect : p.inverse = false) (hplain : item.isPlainCondition c = true)
    (hknown : ∀ other ∈ item.mentions, w.catalog.Knows other) :
    Settles w (d.valueClause path p (Field.group n, lower) item c property)
      (∀ t ∈ item.times, ∃ x, TimeOf.dayNumber t = .ok x) fun clause =>
        ∀ M doc, Clause.holds M doc clause = (n :: lower).any fun k =>
          (doc (Field.inGroup (Field.group k) (item.arrayOf p))).any fun v =>
            (item.asked? w.catalog).any (M.compares c v) := by
  unfold valueClause
  refine (settles_propertyCondition d n property hdirect hplain hknown).bind_total ?_
  rintro m ⟨hnegated, make, hgroup, hclause, hholds⟩
  rw [hdirect, hnegated, hclause]
  refine Settles.pure fun M doc => ?_
  have hover : Clause.holds M doc (Clause.compound m.occur
      [Clause.overHierarchy (make n) (Field.group n) lower]) =
        Clause.holds M doc (Clause.overHierarchy (make n) (Field.group n) lower) := by
    unfold Condition.Matched.occur
    rw [hnegated]
    cases m.isFilter <;> simp
  simp only [Bool.false_eq_true, if_false, hover, Clause.holds_overHierarchy M doc hgroup, hholds]

/-- The presence of a property is that of the property or of one below it. -/
theorem holds_presenceClause (M : Matching) (doc : Indexed) (p : Property) (n : Int)
    (lower : List Int) (negated : Bool) :
    Clause.holds M doc (presenceClause p (Field.group n, lower) negated) =
      (negated ^^ (n :: lower).any fun k => !(doc (Field.inGroup (Field.group k)
        (if p.isPage then Field.numbers else Field.ofProperty p))).isEmpty) := by
  have hover := Clause.holds_overHierarchy M doc
    (Clause.ofGroup_hasField (if p.isPage then Field.numbers else Field.ofProperty p)) n lower
  simp only [Clause.holds_hasField] at hover
  rw [← hover]
  unfold presenceClause
  cases negated <;> simp

/-! ## The traversal -/

theorem negatedFields_nil {p : Progress} (h : p.negated = []) (positions : List (List Nat)) :
    negatedFields p positions = [] := by
  unfold negatedFields
  rw [h]
  induction positions with
  | nil => rfl
  | cons position positions ih => exact ih

/-- A compound of as many clauses as members, of which there are some. -/
private theorem joined_of_length (occur : Occur) {clauses : List (List Nat × Json)}
    {ds : List Description} (hlength : clauses.length = ds.length) (hne : ds.isEmpty = false) :
    joined occur (clauses.map (·.2)) = some (Clause.compound occur (clauses.map (·.2))) := by
  cases clauses with
  | nil => cases ds <;> simp at hlength hne
  | cons clause clauses => rfl

/-- A disjunction without negated members asks for nothing besides. -/
theorem settles_disjoined {clauses : List (List Nat × Json)} {ds : List Description}
    (hlength : clauses.length = ds.length) (hne : ds.isEmpty = false) :
    Settles w (disjoined clauses : Compiling σ (Option Json)) True
      (· = some (Clause.compound .should (clauses.map (·.2)))) := by
  unfold disjoined
  rw [joined_of_length .should hlength hne]
  refine Settles.progress.bind_of_total fun p hp => ?_
  refine Settles.pure ?_
  rw [negatedFields_nil hp]
  rfl

/-- What a visit asks of the times follows from what the rest of a node does. -/
theorem usable_iff {q : QuerySettings} {times : List Time} :
    (((q.nodeLog = true → ∀ t ∈ times, ∃ s, Time.label t = .ok s) ∧
      ∀ t ∈ times, ∃ x, TimeOf.dayNumber t = .ok x) ↔
        ∀ t ∈ times, Description.IsUsable q t) := by
  constructor
  · rintro ⟨hlabel, hday⟩ t ht
    exact ⟨hday t ht, fun hlog => hlabel hlog t ht⟩
  · intro h
    exact ⟨fun hlog t ht => (h t ht).2 hlog, fun t ht => (h t ht).1⟩

private theorem usable_of_visit {q : QuerySettings} {times : List Time} :
    (((q.nodeLog = true → ∀ t ∈ times, ∃ s, Time.label t = .ok s) ∧
      ∀ t ∈ times, Description.IsUsable q t) ↔ ∀ t ∈ times, Description.IsUsable q t) := by
  rw [← usable_iff, ← and_assoc, and_self]

/-- A condition on a property, compiled without touching the world. -/
theorem settles_property (d : Deployment σ) (expand : Expansion σ) (path : List Nat) (p : Property)
    (depth : Option Int) (inner : Description)
    (hinline : (Description.someProperty p inner depth).isInline = true)
    (hknown : ∀ item ∈ (Description.someProperty p inner depth).mentions w.catalog
      d.settings.query, w.catalog.Knows item) :
    Settles w (d.compileProperty expand path none p depth inner)
      (∀ t ∈ inner.times, ∃ x, TimeOf.dayNumber t = .ok x) fun r =>
        ∃ clause, r = some clause ∧ ∀ M doc, Clause.holds M doc clause =
          (Description.someProperty p inner depth).describes M w.catalog d.settings.query doc := by
  cases inner with
  | thing negated =>
      simp only [Description.mentions, Catalog.reach, List.mem_cons] at hknown
      rcases hknown _ (.inl rfl) with ⟨n, hn⟩
      have hsite := d.outcome_propertySite hn fun other h => hknown other (.inr h)
      refine (Settles.act_of_ok hsite).bind_of_total ?_
      rintro _ rfl
      refine (Settles.pure ⟨_, rfl, fun M doc => ?_⟩).iff (by simp [Description.times])
      rw [holds_presenceClause]
      simp only [Description.describes, Description.hasProperty, Catalog.fields, Catalog.reach,
        Catalog.numbersOf_cons hn, List.any_map, Function.comp_def]
      rfl
  | value item comparator property =>
      simp only [Description.mentions, Catalog.reach, List.mem_append, List.mem_cons] at hknown
      simp only [Description.isInline, Bool.and_eq_true, Bool.not_eq_true'] at hinline
      rcases hknown _ (.inr (.inl rfl)) with ⟨n, hn⟩
      have hsite := d.outcome_propertySite hn fun other h => hknown other (.inr (.inr h))
      have hvalue := d.settles_valueClause path n
        (w.catalog.numbersOf (w.catalog.lower (.property p) (d.depthOf depth))) property
        hinline.1 hinline.2 fun other h => hknown other (.inl h)
      refine (Settles.act_of_ok hsite).bind_of_total ?_
      rintro _ rfl
      refine hvalue.bind_total fun clause hclause => ?_
      refine Settles.pure ⟨clause, rfl, fun M doc => ?_⟩
      simp only [hclause, Description.describes, Description.hasComparable, Catalog.fields,
        Catalog.reach, Catalog.numbersOf_cons hn, List.any_map, Function.comp_def]
      rfl
  | conjunction _ | disjunction _ | category _ _ _ | concept _ | space _ | someProperty _ _ _ =>
      simp [Description.isInline] at hinline

mutual

/-- By induction on the description: the clause of a node selects what the node describes. -/
theorem settles_node (d : Deployment σ) (expand : Expansion σ) (isMember : Bool) (path : List Nat) :
    (node : Description) → node.isInline = true →
    (∀ item ∈ node.mentions w.catalog d.settings.query, w.catalog.Knows item) →
    Settles w (d.compileNode expand isMember path node)
      (∀ t ∈ node.times, Description.IsUsable d.settings.query t) fun r =>
        ∃ clause, r = some clause ∧ ∀ M doc, Clause.holds M doc clause =
          node.describes M w.catalog d.settings.query doc
  | .conjunction ds, hinline, hknown => by
      simp only [Description.isInline, Bool.and_eq_true, Bool.not_eq_true'] at hinline
      have hvisit := (d.settles_visit (w := w) (.conjunction ds))
      refine (hvisit.bind fun _ _ => (settles_members d expand path 0 ds hinline.2 hknown).bind_total
        fun clauses hclauses => Settles.pure ?_).iff usable_of_visit
      refine ⟨_, joined_of_length .must hclauses.1 hinline.1, fun M doc => ?_⟩
      rw [Clause.holds_must, (hclauses.2 M doc).1, Description.describes]
  | .disjunction ds, hinline, hknown => by
      simp only [Description.isInline, Bool.and_eq_true, Bool.not_eq_true'] at hinline
      have hvisit := (d.settles_visit (w := w) (.disjunction ds))
      refine (hvisit.bind fun _ _ => (settles_members d expand path 0 ds hinline.2 hknown).bind_total
        fun clauses hclauses => ?_).iff usable_of_visit
      refine (settles_disjoined hclauses.1 hinline.1).mono fun r _ hr => ⟨_, hr, fun M doc => ?_⟩
      have hsome : (clauses.map (·.2)).isEmpty = false := by
        cases clauses with
        | nil => cases ds <;> simp at hclauses hinline
        | cons clause clauses => rfl
      rw [Clause.holds_should, hsome, Bool.false_or, (hclauses.2 M doc).2, Description.describes]
  | .category categories depth negated, hinline, hknown => by
      have hne : categories ≠ [] := by simpa [Description.isInline] using hinline
      rcases d.outcome_categoryClause isMember hne hknown with ⟨clause, houtcome, hclause⟩
      refine ((d.settles_visit _).bind_total fun _ _ =>
        (Settles.act_of_ok houtcome).bind_of_total ?_).iff (by simp [Description.times])
      rintro _ rfl
      exact Settles.pure ⟨clause, rfl, hclause⟩
  | .space n, _, _ => by
      refine ((d.settles_visit (.space n)).bind_total fun _ _ =>
        Settles.pure ⟨_, rfl, fun M doc => ?_⟩).iff (by simp [Description.times])
      simp [holds_placed, Description.describes]
  | .someProperty p inner depth, hinline, hknown => by
      refine ((d.settles_visit (.someProperty p inner depth)).bind fun _ _ =>
        d.settles_property expand path p depth inner hinline hknown).iff ?_
      exact usable_iff
  | .concept _, hinline, _ | .value _ _ _, hinline, _ | .thing _, hinline, _ => by
      simp [Description.isInline] at hinline

/-- The clauses of members select together what the members describe together. -/
theorem settles_members (d : Deployment σ) (expand : Expansion σ) (path : List Nat) :
    (i : Nat) → (ds : List Description) → Description.areInline ds = true →
    (∀ item ∈ Description.allMentions w.catalog d.settings.query ds, w.catalog.Knows item) →
    Settles w (d.compileMembers expand path i ds)
      (∀ t ∈ Description.allTimes ds, Description.IsUsable d.settings.query t) fun clauses =>
        clauses.length = ds.length ∧ ∀ M doc,
          (clauses.map (·.2)).all (Clause.holds M doc) =
            Description.eachDescribes M w.catalog d.settings.query doc ds ∧
          (clauses.map (·.2)).any (Clause.holds M doc) =
            Description.someDescribes M w.catalog d.settings.query doc ds
  | _, [], _, _ => by
      refine (Settles.pure ?_).iff (by simp [Description.allTimes])
      simp [Description.eachDescribes, Description.someDescribes]
  | i, m :: ms, hinline, hknown => by
      simp only [Description.areInline, Bool.and_eq_true] at hinline
      simp only [Description.allMentions, List.mem_append] at hknown
      have hm := settles_node d expand true (path ++ [i]) m hinline.1 fun item h =>
        hknown item (.inl h)
      have hms := settles_members d expand path (i + 1) ms hinline.2 fun item h =>
        hknown item (.inr h)
      refine (hm.bind fun r hr => hms.bind_total fun clauses hclauses => Settles.pure ?_).iff ?_
      · rcases hr with ⟨clause, rfl, hclause⟩
        refine ⟨by simp [hclauses.1], fun M doc => ?_⟩
        simp [Description.eachDescribes, Description.someDescribes, hclause, (hclauses.2 M doc).1,
          (hclauses.2 M doc).2]
      · simp only [Description.allTimes, List.mem_append, or_imp, forall_and]

end

/-- Compiling a description is compiling its root, with nothing come to light so far. -/
theorem outcome_compile (d : Deployment σ) (isMember : Bool) (description : Description)
    (w : World σ) : (d.compile isMember description).outcome w =
      let (result, s) := (d.compileNode (d.expandConcept (w.catalog.concepts.length + 1)) isMember []
        description).outcome (w, {})
      (result.map fun a => (a, s.2), s.1) := by
  have hcatalog : (Compiling.act (catalog : Action σ Catalog)).outcome (w, {}) =
      (.ok w.catalog, (w, {})) := rfl
  unfold compile Compiling.start compileTree
  rw [Effect.outcome_make, Effect.outcome_bind_of_ok hcatalog]

/-- The query of a description that a document answers by itself selects exactly the documents that
the description describes, however the engine compares values. Compiling it fails only for a time that
has no day number, or no label where that is needed, and leaves the world as it is. -/
theorem compile_selects (d : Deployment σ) (isMember : Bool) {description : Description}
    (hinline : description.isInline = true)
    (hknown : ∀ item ∈ description.mentions w.catalog d.settings.query, w.catalog.Knows item) :
    ((∀ t ∈ description.times, Description.IsUsable d.settings.query t) →
      ∃ clause progress, (d.compile isMember description).outcome w =
          (.ok (some clause, progress), w) ∧
        ∀ M doc, Clause.holds M doc clause =
          description.describes M w.catalog d.settings.query doc) ∧
    (¬ (∀ t ∈ description.times, Description.IsUsable d.settings.query t) →
      ∃ e, (d.compile isMember description).outcome w = (.error e, w)) := by
  have hnode := d.settles_node (d.expandConcept (w.catalog.concepts.length + 1)) isMember []
    description hinline hknown {} rfl
  rw [outcome_compile]
  rcases houtcome : (d.compileNode (d.expandConcept (w.catalog.concepts.length + 1)) isMember []
    description).outcome (w, {}) with ⟨e | r, after, progress⟩
  · rcases hnode.of_outcome houtcome with ⟨rfl, _, hfine⟩
    exact ⟨fun h => absurd h hfine, fun _ => ⟨e, rfl⟩⟩
  · rcases hnode.of_outcome houtcome with ⟨rfl, _, hfine, clause, rfl, hclause⟩
    exact ⟨fun _ => ⟨clause, progress, rfl, hclause⟩, fun h => absurd hfine h⟩

/-- Pages of a category or in the main namespace, with a number of at most five and a city. -/
private def sampleDescription : Description :=
  .conjunction [.disjunction [.category [{ title := "Town" }] none true, .space 0],
    .someProperty { key := "Has_size", valueType := .number } (.value (.number 5) .leq none) none,
    .someProperty { key := "Has_city" } (.value (.page { title := "Oslo" }) .eq none) (some 1)]

private def sampleCatalog : Catalog where
  next := 7
  numbers := [(.property "_INST", 1), (.entity "Town#0##", 2), (.entity "Port#0##", 3),
    (.property "Has_size", 4), (.property "Has_city", 5), (.entity "Oslo#0##", 6)]
  hierarchy := [(.entity "Town#0##", [.entity { title := "Port" }])]

private def sampleDeployment : Deployment Unit where
  client := ⟨fun _ s => (.error .connection, s)⟩
  cache := {}
  queue := {}

theorem compile_selects_sample :
    sampleDescription.isInline = true ∧
    (∀ item ∈ sampleDescription.mentions sampleCatalog {}, sampleCatalog.Knows item) ∧
    ∃ clause progress, (sampleDeployment.compile false sampleDescription).outcome
        { engine := (), catalog := sampleCatalog } =
          (.ok (some clause, progress), { engine := (), catalog := sampleCatalog }) ∧
      ∀ M doc, Clause.holds M doc clause =
        sampleDescription.describes M sampleCatalog {} doc :=
  ⟨by decide, by decide, (compile_selects sampleDeployment false (by decide)
    (w := { engine := (), catalog := sampleCatalog }) (by decide)).1
      (by simp [sampleDescription, Description.times, Description.allTimes, Item.times])⟩

end Deployment

end FactIndex
