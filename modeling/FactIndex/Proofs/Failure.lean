import FactIndex.Cache.Basic
import FactIndex.Compile.Node
import FactIndex.Proofs.Effect
import FactIndex.Search.Hits

/-!
# Failures of one's own

A store can fail because the search engine is out of reach or refuses a request. Whatever else is computed
on the way fails, if at all, for reasons of its own: a value that makes no sense, a member that is missing,
a number that is too large.

## Main definitions

* `Failure.isOwn`: a failure that does not come from the search engine.
* `Failure.Own`: a result that fails, if at all, in such a way.
* `Effect.Own`: a computation that does so.
-/

namespace FactIndex

variable {α β : Type}

/-- Whether a failure does not come from the search engine. -/
def Failure.isOwn : Failure → Bool
  | .unavailable _ | .client _ => false
  | _ => true

/-- A sequence that succeeds has parts that succeed. -/
theorem Failure.exists_of_bind_ok {r : Except Failure α} {f : α → Except Failure β} {b : β}
    (h : (r >>= f) = .ok b) : ∃ a, r = .ok a ∧ f a = .ok b := by
  cases r with
  | ok a => exact ⟨a, rfl, h⟩
  | error e => cases h

theorem Failure.forall_of_mapM {f : α → Except Failure β} {P : β → Prop} {items : List α} {results : List β}
    (hf : ∀ a ∈ items, ∀ b, f a = .ok b → P b) (h : items.mapM f = .ok results) : ∀ b ∈ results, P b := by
  induction items generalizing results with
  | nil =>
      cases h
      exact List.forall_mem_nil _
  | cons a rest ih =>
      obtain ⟨ha, hrest⟩ := List.forall_mem_cons.mp hf
      rw [List.mapM_cons] at h
      obtain ⟨b, hb, h⟩ := exists_of_bind_ok h
      obtain ⟨bs, hbs, h⟩ := exists_of_bind_ok h
      cases h
      exact List.forall_mem_cons.mpr ⟨ha b hb, ih hrest hbs⟩

/-- A sequence of results has one for each item. -/
theorem Failure.length_of_mapM {f : α → Except Failure β} {items : List α} {results : List β}
    (h : items.mapM f = .ok results) : results.length = items.length := by
  induction items generalizing results with
  | nil =>
      cases h
      rfl
  | cons a rest ih =>
      rw [List.mapM_cons] at h
      obtain ⟨b, -, h⟩ := exists_of_bind_ok h
      obtain ⟨bs, hbs, h⟩ := exists_of_bind_ok h
      cases h
      exact congrArg (· + 1) (ih hbs)

theorem Failure.of_foldlM {f : β → α → Except Failure β} {P : β → Prop} {items : List α} {b result : β}
    (hf : ∀ b, P b → ∀ a ∈ items, ∀ b', f b a = .ok b' → P b') (hb : P b)
    (h : items.foldlM f b = .ok result) : P result := by
  induction items generalizing b with
  | nil =>
      cases h
      exact hb
  | cons a rest ih =>
      rw [List.foldlM_cons] at h
      obtain ⟨next, hnext, h⟩ := exists_of_bind_ok h
      exact ih (fun b hb a ha => hf b hb a (List.mem_cons_of_mem _ ha)) (hf b hb a List.mem_cons_self _ hnext) h

/-- A result that is no failure, or one that does not come from the search engine. -/
def Failure.Own (r : Except Failure α) : Prop := ∀ e, r = .error e → e.isOwn = true

namespace Failure.Own

theorem ok (a : α) : Own (.ok a) := nofun

theorem pure (a : α) : Own (Pure.pure a : Except Failure α) := ok a

theorem error {e : Failure} (h : e.isOwn = true) : Own (.error e : Except Failure α) := by
  rintro _ ⟨⟩
  exact h

theorem bind {r : Except Failure α} {f : α → Except Failure β} (hr : Own r) (hf : ∀ a, Own (f a)) :
    Own (r >>= f) := by
  cases r with
  | ok a => exact hf a
  | error e => exact error (hr e rfl)

theorem map {r : Except Failure α} (f : α → β) (hr : Own r) : Own (f <$> r) := by
  cases r with
  | ok a => exact ok _
  | error e => exact error (hr e rfl)

theorem mapM {f : α → Except Failure β} (h : ∀ a, Own (f a)) (items : List α) : Own (items.mapM f) := by
  induction items with
  | nil => exact pure _
  | cons a rest ih =>
      rw [List.mapM_cons]
      exact (h a).bind fun _ => ih.bind fun _ => pure _

theorem foldlM {f : β → α → Except Failure β} (h : ∀ b a, Own (f b a)) (items : List α) (b : β) :
    Own (items.foldlM f b) := by
  induction items generalizing b with
  | nil => exact pure _
  | cons a rest ih =>
      rw [List.foldlM_cons]
      exact (h b a).bind fun b => ih b

end Failure.Own

/-- A computation that fails, if at all, for reasons of its own. -/
def Effect.Own {τ : Type} (x : Effect τ α) : Prop := ∀ s, Failure.Own (x.outcome s).1

namespace Effect.Own

variable {τ : Type}

theorem pure (a : α) : Effect.Own (Pure.pure a : Effect τ α) := fun _ => Failure.Own.ok a

theorem throw {e : Failure} (h : e.isOwn = true) : Effect.Own (MonadExcept.throw e : Effect τ α) :=
  fun _ => Failure.Own.error h

theorem ofExcept {r : Except Failure α} (h : Failure.Own r) : Effect.Own (Effect.ofExcept r : Effect τ α) := by
  intro s
  rwa [outcome_ofExcept]

theorem bind {x : Effect τ α} {f : α → Effect τ β} (hx : Effect.Own x) (hf : ∀ a, Effect.Own (f a)) :
    Effect.Own (x >>= f) := by
  intro s
  have h := hx s
  rw [outcome_bind]
  rcases hr : x.outcome s with ⟨e | a, t⟩
  · rw [hr] at h
    exact Failure.Own.error (h e rfl)
  · exact hf a t

theorem map {x : Effect τ α} (f : α → β) (hx : Effect.Own x) : Effect.Own (f <$> x) := by
  intro s
  rw [outcome_map]
  exact (hx s).map f

end Effect.Own

open Failure

/-! ## Numbers and times -/

namespace Calendar

open DayArithmetic

theorem own_finite (x : Float) : Own (finite x) := by
  unfold finite
  split
  · exact Own.ok _
  · exact Own.error rfl

theorem own_floorFloat (x : Float) : Own (floorFloat x) := by
  unfold floorFloat
  split
  · exact Own.ok _
  · split <;> exact Own.error rfl

theorem own_truncateFloat (x : Float) : Own (truncateFloat x) := by
  unfold truncateFloat
  split
  · exact Own.ok _
  · split <;> exact Own.error rfl

theorem own_dayNumber (t : Time) : Own (TimeOf.dayNumber t) := by
  have hfloor : ∀ x : Float, Own (floor x) := own_floorFloat
  have hint : ∀ n : Int, Own (ofInt n : Except Failure Float) := fun _ => own_finite _
  have hquotient : ∀ a b, Own (quotient a b : Except Failure Float) := fun _ _ => own_finite _
  have hcentury : ∀ year, Own (TimeOf.centuryShift Float year) := fun year =>
    (hquotient _ _).bind fun _ => (hfloor _).bind fun _ => (hquotient _ _).bind fun _ =>
      (hfloor _).bind fun _ => Own.pure _
  unfold TimeOf.dayNumber
  generalize (if t.month ≤ 2 then (t.year - 1, t.month + 12) else (t.year, t.month)) = date
  obtain ⟨year, month⟩ := date
  dsimp only
  split
  · exact (hcentury year).bind fun _ => (hint _).bind fun _ => (hfloor _).bind fun _ =>
      (hint _).bind fun _ => (hfloor _).bind fun _ => (hint _).bind fun _ => (hint _).bind fun _ =>
        (hquotient _ _).bind fun _ => (hint _).bind fun _ => (hint _).bind fun _ => Own.pure _
  · exact (Own.pure 0).bind fun _ => (hint _).bind fun _ => (hfloor _).bind fun _ =>
      (hint _).bind fun _ => (hfloor _).bind fun _ => (hint _).bind fun _ => (hint _).bind fun _ =>
        (hquotient _ _).bind fun _ => (hint _).bind fun _ => (hint _).bind fun _ => Own.pure _

theorem own_label (t : Time) : Own (Time.label t) := by
  unfold Time.label
  dsimp only
  split
  · exact Own.pure _
  · exact (own_truncateFloat _).bind fun _ => Own.pure _

end Calendar

namespace Json

theorem own_toWhole (value : Json) : Own value.toWhole := by
  unfold toWhole
  split
  · exact Own.ok _
  · exact Own.ok _
  · exact Calendar.own_truncateFloat _
  · split
    · exact Own.ok _
    · exact Own.error rfl
  · exact Own.error rfl

theorem own_elements (value : Json) : Own value.elements := by
  cases value with
  | arr | str | obj => exact Own.ok _
  | null | bool | int | float => exact Own.error rfl

theorem own_asMember (pair : Json) : Own pair.asMember := by
  refine (own_elements pair).bind fun parts => ?_
  split
  · exact Own.error rfl
  · exact Own.error rfl
  · exact Own.pure _
  · exact Own.error rfl

theorem own_paired (value : Json) : Own value.paired := by
  unfold paired
  split
  · exact Own.ok _
  · exact (own_elements _).bind fun _ => (Own.mapM own_asMember _).bind fun _ => Own.pure _

end Json

/-! ## Descriptions -/

theorem Item.own_label (item : Item) : Own item.label := by
  cases item with
  | time t => exact Calendar.own_label t
  | page | text | uri | number | boolean | coordinate | area => exact Own.ok _

theorem Item.own_searchValue (item : Item) : Own item.searchValue := by
  cases item with
  | time t => exact (Calendar.own_dayNumber t).map _
  | page | text | uri | number | boolean | coordinate | area => exact Own.ok _

namespace Description

mutual

theorem own_textAt : (setting : Setting) → (d : Description) → Own (d.textAt setting)
  | setting, .conjunction ds => by
      rw [textAt]
      exact (own_textsAt _ ds).bind fun _ => Own.pure _
  | setting, .disjunction ds => by
      rw [textAt]
      exact (own_textsAt _ ds).bind fun _ => Own.pure _
  | setting, .someProperty p d _ => by
      rw [textAt]
      exact (own_textAt _ d).bind fun _ => Own.pure _
  | setting, .value item _ _ => by
      rw [textAt]
      exact item.own_label.bind fun _ => Own.pure _
  | setting, .category _ _ _ | setting, .concept _ | setting, .space _ | setting, .thing _ => by
      rw [textAt]
      exact Own.pure _

theorem own_textsAt : (setting : Setting) → (ds : List Description) → Own (textsAt setting ds)
  | _, [] => by
      rw [textsAt]
      exact Own.pure _
  | setting, d :: ds => by
      rw [textsAt]
      exact (own_textAt setting d).bind fun _ => (own_textsAt setting ds).bind fun _ => Own.pure _

end

theorem own_queryText (d : Description) : Own d.queryText := own_textAt _ d

theorem own_portrait (d : Description) : Own d.portrait := d.own_queryText.bind fun _ => Own.pure _

end Description

/-! ## Clauses -/

namespace Clause

theorem own_range (field : String) (value : Json) (c : Comparator) : Own (range field value c) := by
  unfold range
  split
  · exact Own.ok _
  · exact Own.error rfl

theorem own_firstFound {findings : List (Except Failure Json)} (h : ∀ r ∈ findings, Own r) :
    Own (firstFound findings) := by
  induction findings with
  | nil => exact Own.ok _
  | cons r rest ih =>
      obtain ⟨hr, hrest⟩ := List.forall_mem_cons.mp h
      cases r with
      | error e => exact hr
      | ok found =>
          rw [firstFound]
          split
          · exact ih hrest
          · exact Own.ok _

theorem own_namedIn (field : String) (value : Json) : Own (namedIn field value) := by
  unfold namedIn
  split
  · exact Own.ok _
  · split
    · exact Own.error rfl
    · exact Own.ok _
  · split
    · exact Own.error rfl
    · exact Own.ok _
  · exact Own.error rfl

mutual

theorem own_fieldFilter (field : String) : (clause : Json) → Own (fieldFilter field clause)
  | .arr xs => by
      rw [fieldFilter]
      exact own_firstFound (own_fieldFilterEach field xs)
  | .obj ms => by
      have hrest : Own (match fieldFilterScored field ms with
          | some found => found
          | none => (fieldFilterCompound field ms).getD (.ok (.arr []))) := by
        split
        · rename_i found hfound
          exact own_fieldFilterScored field ms found hfound
        · cases hfound : fieldFilterCompound field ms with
          | none => exact Own.ok _
          | some found => exact own_fieldFilterCompound field ms found hfound
      rw [fieldFilter]
      dsimp only
      split
      · refine (own_namedIn field _).bind fun found => ?_
        cases found with
        | none => exact hrest
        | some found => exact Own.pure _
      · exact hrest
  | .null | .bool _ | .int _ | .float _ | .str _ => by
      rw [fieldFilter]
      all_goals first | exact Own.ok _ | nofun

theorem own_fieldFilterEach (field : String) : (xs : List Json) →
    ∀ r ∈ fieldFilterEach field xs, Own r
  | [] => by simp [fieldFilterEach]
  | x :: xs => by
      rw [fieldFilterEach]
      exact List.forall_mem_cons.mpr ⟨own_fieldFilter field x, own_fieldFilterEach field xs⟩

theorem own_fieldFilterScored (field : String) : (ms : List (String × Json)) →
    ∀ r, fieldFilterScored field ms = some r → Own r
  | [] => by simp [fieldFilterScored]
  | (key, .obj inner) :: ms => by
      intro r hr
      rw [fieldFilterScored] at hr
      split at hr
      · cases hr
        cases hinner : fieldFilterInner field inner with
        | none => exact Own.error rfl
        | some found => exact own_fieldFilterInner field inner found hinner
      · exact own_fieldFilterScored field ms r hr
  | (key, .null) :: ms | (key, .bool _) :: ms | (key, .int _) :: ms | (key, .float _) :: ms
  | (key, .str _) :: ms | (key, .arr _) :: ms => by
      intro r hr
      rw [fieldFilterScored] at hr
      · split at hr
        · cases hr
          exact Own.error rfl
        · exact own_fieldFilterScored field ms r hr
      · nofun

theorem own_fieldFilterInner (field : String) : (ms : List (String × Json)) →
    ∀ r, fieldFilterInner field ms = some r → Own r
  | [] => by simp [fieldFilterInner]
  | (key, value) :: ms => by
      intro r hr
      rw [fieldFilterInner] at hr
      split at hr
      · cases hr
        exact own_fieldFilter field value
      · exact own_fieldFilterInner field ms r hr

theorem own_fieldFilterCompound (field : String) : (ms : List (String × Json)) →
    ∀ r, fieldFilterCompound field ms = some r → Own r
  | [] => by simp [fieldFilterCompound]
  | (key, .obj inner) :: ms => by
      intro r hr
      rw [fieldFilterCompound] at hr
      split at hr
      · cases hr
        exact own_firstFound (own_fieldFilterMembers field inner)
      · exact own_fieldFilterCompound field ms r hr
  | (key, .null) :: ms | (key, .bool _) :: ms | (key, .int _) :: ms | (key, .float _) :: ms
  | (key, .str _) :: ms | (key, .arr _) :: ms => by
      intro r hr
      rw [fieldFilterCompound] at hr
      · split at hr
        · cases hr
          exact Own.error rfl
        · exact own_fieldFilterCompound field ms r hr
      · nofun

theorem own_fieldFilterMembers (field : String) : (ms : List (String × Json)) →
    ∀ r ∈ fieldFilterMembers field ms, Own r
  | [] => by simp [fieldFilterMembers]
  | (key, value) :: ms => by
      rw [fieldFilterMembers]
      exact List.forall_mem_cons.mpr ⟨own_fieldFilter field value, own_fieldFilterMembers field ms⟩

end

end Clause

/-! ## Conditions -/

namespace Condition

theorem own_bounded (group array : String) (item : Item) (c : Comparator) (value : Json) :
    Own (bounded group array item c value) :=
  (Clause.own_range _ _ _).bind fun _ => Own.pure _

theorem own_ofProperty (q : QuerySettings) (normalKeywords : Bool) (type : ValueType)
    (group array : String) (item : Item) (c : Comparator) (value : Json) :
    Own (ofProperty q normalKeywords type group array item c value) := by
  unfold ofProperty
  dsimp only
  split
  all_goals first | exact own_bounded _ _ _ _ _ | exact Own.ok _

theorem own_ofEntity (q : QuerySettings) (field : String) (item : Item) (c : Comparator) (value : Json) :
    Own (ofEntity q field item c value) := by
  unfold ofEntity
  split
  · exact Own.ok _
  · split
    · exact (Clause.own_range _ _ _).map _
    · split
      · exact Own.ok _
      · split
        all_goals first
          | exact Own.ok _
          | (split <;> first | exact Own.ok _ | exact (Clause.own_range _ _ _).map _)

end Condition

/-! ## Answers -/

namespace Hits

theorem own_memberOf (value : Json) (key : String) (default : Json) :
    Own (memberOf value key default) := by
  unfold memberOf
  split
  · exact Own.ok _
  · exact Own.error rfl

theorem own_nameOf (hit : Json) : Own (nameOf hit) := by
  unfold nameOf
  split
  · split
    · exact Own.ok _
    · exact Own.error rfl
  · exact Own.error rfl

theorem own_numberOf (name : Json) : Own (numberOf name) := by
  unfold numberOf
  split
  · exact Own.ok _
  · exact Own.ok _
  · exact Own.ok _
  · rename_i e _ _ he
    exact Own.error (name.own_toWhole e he)

theorem own_total (hits : Json) : Own (total hits) := by
  refine (own_memberOf _ _ _).bind fun value => ?_
  split
  · exact Json.own_toWhole _
  · split
    · exact Json.own_toWhole _
    · exact Own.ok _

theorem own_totalShown (hits : Json) : Own (totalShown hits) := by
  refine (own_memberOf _ _ _).bind fun value => ?_
  split <;> exact Own.pure _

theorem own_numbers (hits : Json) : Own (numbers hits) :=
  (own_memberOf _ _ _).bind fun _ => (Json.own_elements _).bind fun _ =>
    Own.mapM (fun _ => (own_nameOf _).bind fun _ => own_numberOf _) _

theorem own_fieldValues (hits : Json) (field : String) : Own (fieldValues hits field) :=
  (own_memberOf _ _ _).bind fun _ => (Json.own_elements _).bind fun _ =>
    Own.foldlM (fun _ _ => (own_memberOf _ _ _).bind fun _ => (own_memberOf _ _ _).bind fun _ =>
      (own_memberOf _ _ _).bind fun _ => Own.pure _) _ _

theorem own_entity (c : Catalog) (name : Json) : Own (entity c name) := by
  refine (own_numberOf name).bind fun number => ?_
  split <;> exact Own.pure _

theorem own_convert (c : Catalog) (answer : Members) (limit : Int) : Own (convert c answer limit) :=
  (own_memberOf _ _ _).bind fun _ => (own_totalShown _).bind fun _ => (own_memberOf _ _ _).bind fun _ =>
    (Json.own_elements _).bind fun _ =>
      (Own.mapM (fun _ => (own_nameOf _).bind fun _ => own_entity _ _) _).bind fun _ => Own.pure _

end Hits

theorem KeyValue.Address.own_request (a : Address) (way : Way) : Own (a.request way) := by
  have hfixed : Own a.fixedMembers := by
    unfold fixedMembers
    split
    · exact Own.ok _
    · split
      · exact Own.error rfl
      · exact Own.ok _
  have hmore : Own a.optionMembers := by
    unfold optionMembers
    split
    · exact Own.ok _
    · split
      · exact Own.error rfl
      · exact Own.ok _
  unfold request
  refine hfixed.bind fun fixed => hmore.bind fun more => ?_
  dsimp only
  split
  · exact Own.error rfl
  · exact Own.pure _

/-! ## The cache -/

namespace Cache

theorem own_fullKey (c : Cache) (key : Json) : Own (c.fullKey key) := by
  unfold fullKey
  split
  · split
    · split
      · exact Own.ok _
      · exact Own.error rfl
    · exact Own.ok _
  · exact Own.ok _
  · exact Own.error rfl

theorem own_secondsOf (ttl : Json) : Own (secondsOf ttl) := by
  unfold secondsOf
  split
  · split
    · exact Own.ok _
    · exact Own.ok _
    · exact Own.error rfl
  · exact Own.ok _

theorem own_millisecondsOf (ttl : Json) : Own (millisecondsOf ttl) := by
  unfold millisecondsOf
  split
  · split
    · exact (Calendar.own_truncateFloat _).map _
    · exact Own.ok _
    · exact Own.error rfl
    · exact Own.error rfl
  · exact Own.ok _

theorem own_optionMembers (options : Json) : Own (optionMembers options) := by
  unfold optionMembers
  split
  · split
    · exact Own.error rfl
    · exact Own.ok _
  · exact Own.error rfl

theorem own_ensure (address : KeyValue.Address) (way : Way) :
    Effect.Own (KeyValue.Links.ensure address way) := by
  intro s
  unfold KeyValue.Links.ensure
  rw [Effect.outcome_make]
  dsimp only
  split
  · exact Own.ok _
  · split
    · exact Own.ok _
    · rename_i e he
      exact Own.error (address.own_request way e he)

theorem own_onServer {address : KeyValue.Address} {way : Way} {x : Effect KeyValue.Host α}
    (hx : Effect.Own x) : Effect.Own (Site.onServer address way x) :=
  Effect.Own.bind (fun site => own_ensure address way (site.1.links, site.2)) fun _ site => hx site.2

theorem own_get (c : Cache) (way : Way) (key : Json) : Effect.Own (c.get way key) := by
  unfold get
  split
  · refine (Effect.Own.ofExcept (c.own_fullKey key)).bind fun full =>
      Effect.Own.bind (fun _ => Own.ok _) fun r => ?_
    split
    · exact Effect.Own.pure _
    · exact Effect.Own.throw rfl
  · have hask : Effect.Own (do KeyValue.Host.get (← .ofExcept (c.fullKey key))) :=
      (Effect.Own.ofExcept (c.own_fullKey key)).bind fun _ _ => Own.ok _
    refine (own_onServer hask).bind fun r => ?_
    split
    · split
      · exact Effect.Own.pure _
      · exact Effect.Own.throw rfl
    · exact Effect.Own.throw rfl

theorem own_put (c : Cache) (way : Way) (key value ttl : Json) : Effect.Own (c.put way key value ttl) := by
  unfold put
  split
  · dsimp only
    split
    · exact Effect.Own.throw rfl
    · exact (Effect.Own.ofExcept (own_secondsOf ttl)).bind fun _ =>
        (Effect.Own.ofExcept (c.own_fullKey key)).bind fun _ _ => Own.ok _
  · refine own_onServer ?_
    split
    · exact Effect.Own.throw rfl
    · exact (Effect.Own.ofExcept (c.own_fullKey key)).bind fun _ =>
        (Effect.Own.ofExcept (own_millisecondsOf ttl)).bind fun _ =>
          (Effect.Own.ofExcept (own_optionMembers _)).bind fun _ _ => Own.ok _

end Cache

end FactIndex
