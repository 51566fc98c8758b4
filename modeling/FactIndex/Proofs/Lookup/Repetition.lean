import FactIndex.Proofs.Lookup.Found
import FactIndex.Search.Cluster

/-!
# A lookup that is repeated

A lookup that has been answered is answered from the cache from then on, until the end of the time for
which its result is remembered: the clause is the same, and so is the number that is reported, and nothing
is asked of the search engine. Lookups with other keys do not matter for that, whatever their settings. A
lookup whose search was refused has remembered nothing, and so the search is made again.

## Main definitions

* `World.holding`: whether a cache can be reached, and what it holds under a key until when.
* `World.KeepsUntil`: the end of the time of what is held under the key of a lookup.
* `LookupStep.IsApart`: steps that look nothing up under a key.
* `LookupCall.run_again`: the second of two equal calls.
-/

namespace FactIndex

open FactIndex.Effect

variable {σ : Type} {d : Deployment σ} {w : World σ} {l : Lookup} {key full : String}

/-- Whether the cache of a world can be reached, and what it holds under a full key until when. -/
def World.holding (d : Deployment σ) (full : String) (w : World σ) : Bool × Option (Json × Option Float) :=
  ((d.cache.view .waiting (w.cache, w.host)).isConnected, d.cache.entry (w.cache, w.host) full)

theorem World.holding_asked (r : Request) : (w.asked d r).holding d full = w.holding d full := by
  unfold holding
  rw [view_asked]
  exact congrArg (Prod.mk _) (by unfold Cache.entry; cases d.cache.storage <;> rfl)

/-! ## What a lookup leaves under other keys -/

theorem leaves_holding_ask (r : Request) : Leaves (World.holding d full) (ask d r) := fun _ =>
  World.holding_asked r

namespace Lookup

theorem ne_of_keyText (hfull : d.cache.fullKey (.str key) = .ok full) (hkey : l.keyText ≠ key) :
    ∀ own, d.cache.fullKey l.key = .ok own → own ≠ full := by
  rintro own hown rfl
  exact hkey (Cache.fullKey_inj hown hfull)

variable (hfull : d.cache.fullKey (.str key) = .ok full) (hkey : l.keyText ≠ key)

include hfull hkey

theorem leaves_holding_cached : Leaves (World.holding d full) (d.cached? l.key) := by
  have hget : Leaves (World.holding d full)
      (Effect.attempt (onCache (d.cache.get .waiting l.key) : Action σ Json)) := fun w =>
    Prod.ext (congrArg Cache.View.isConnected (d.cache.leaves_get .waiting l.key (w.cache, w.host)))
      (Cache.leaves_entry_get (ne_of_keyText hfull hkey) (w.cache, w.host))
  refine hget.bind fun r => ?_
  split
  · exact Leaves.pure _
  · exact Leaves.pure _
  · exact Leaves.throw _

theorem leaves_holding_remember (count : Int) (name : String) (numbers : Json) :
    Leaves (World.holding d full) (l.remember d count name numbers) := fun w =>
  Prod.ext (Cache.leaves_isConnected_put l.key _ _ (w.cache, w.host))
    (Cache.leaves_entry_put (ne_of_keyText hfull hkey) (w.cache, w.host))

theorem leaves_holding_materialize : Leaves (World.holding d full) (l.materialize d) := by
  have hfind : Leaves (World.holding d full) (l.find d) := by
    rw [find_eq]
    exact (leaves_holding_ask _).bind fun _ => Leaves.ofExcept _
  refine hfind.bind fun found => ?_
  unfold keep
  dsimp only
  split
  · exact (leaves_storeList leaves_holding_ask l.id found.ids).bind fun reference =>
      (leaves_holding_remember hfull hkey found.count "ref" reference).bind fun _ => Leaves.pure _
  · split
    · exact (leaves_holding_remember hfull hkey found.count "ids" _).bind fun _ => Leaves.pure _
    · exact Leaves.pure _

/-- A lookup leaves what is held under other keys. -/
theorem leaves_holding_resolve : Leaves (World.holding d full) (l.resolve d) := by
  refine (leaves_holding_cached hfull hkey).bind fun r => ?_
  cases r with
  | none => exact leaves_holding_materialize hfull hkey
  | some value =>
      dsimp only
      split
      · exact leaves_holding_materialize hfull hkey
      · exact Leaves.ofExcept _

end Lookup

namespace LookupStep

variable {step : LookupStep} {steps : List LookupStep}

/-- A step that looks nothing up under a key. -/
def IsApart (d : Deployment σ) (key : String) : LookupStep → Prop
  | .call s c => ∀ l, c.lookup? (d.withSubquery s) = some l → l.keyText ≠ key
  | .wait _ => True

theorem holding_after (hfull : d.cache.fullKey (.str key) = .ok full) (h : step.IsApart d key)
    (w : World σ) : (step.after d w).holding d full = w.holding d full := by
  cases step with
  | call s c =>
      unfold LookupStep.after
      dsimp only
      rw [LookupCall.outcome_run]
      cases hl : c.lookup? (d.withSubquery s) with
      | none => rfl
      | some l => exact Lookup.leaves_holding_resolve (d := d.withSubquery s) hfull (h l hl) w
  | wait seconds =>
      unfold LookupStep.after World.holding Cache.view Cache.served Cache.entry
      cases d.cache.storage <;> rfl

/-- By induction on the steps: in a run that looks nothing up under a key, that is held on. -/
theorem holding_run (hfull : d.cache.fullKey (.str key) = .ok full)
    (h : ∀ step ∈ steps, step.IsApart d key) (w : World σ) :
    (run d w steps).1.holding d full = w.holding d full := by
  induction steps generalizing w with
  | nil => rfl
  | cons step steps ih =>
      obtain ⟨hstep, hsteps⟩ := List.forall_mem_cons.mp h
      exact (ih hsteps (step.after d w)).trans (holding_after hfull hstep w)

end LookupStep

/-! ## What is remembered -/

variable {value : Json} {limit : Option Float} {m : Materialized} {first later : World σ}

/-- The cache of a world holds a value under a key until the end of a time. -/
def World.KeepsUntil (d : Deployment σ) (w : World σ) (key : String) (value : Json)
    (limit : Option Float) : Prop :=
  ∃ full content, d.cache.fullKey (.str key) = .ok full ∧
    d.cache.entry (w.cache, w.host) full = some (content, limit) ∧ d.cache.readBack content = .ok value

/-- What is recalled is held until the end of some time. -/
theorem World.exists_keepsUntil (h : w.recalled d key = some (.ok value)) :
    value ≠ .null ∧ ∃ limit, w.KeepsUntil d key value limit := by
  obtain ⟨full, hfull⟩ := d.cache.exists_fullKey key
  unfold recalled at h
  simp only [hfull] at h
  rw [Cache.served_eq, Option.map_map] at h
  cases hfresh : d.cache.fresh (w.cache, w.host) full with
  | none =>
      rw [hfresh] at h
      cases h
  | some held =>
      obtain ⟨content, limit⟩ := held
      have hentry : d.cache.entry (w.cache, w.host) full = some (content, limit) :=
        (Option.filter_eq_some_iff.mp hfresh).1
      rcases d.cache.readBack_cases content with ⟨held, hread⟩ | hgarbled
      · simp only [hfresh, Option.map_some, Function.comp, hread] at h
        split at h
        · cases h
        · rename_i hgiven
          cases h
          exact ⟨hgiven, limit, full, content, hfull, hentry, hread⟩
      · simp only [hfresh, Option.map_some, Function.comp, hgarbled] at h
        cases h

/-- Until then it is recalled. -/
theorem World.KeepsUntil.recalled (h : w.KeepsUntil d key value limit) (hvalue : value ≠ .null)
    (hover : d.cache.isOver w.host.network.now limit = false) : w.recalled d key = some (.ok value) := by
  obtain ⟨full, content, hfull, hentry, hread⟩ := h
  unfold World.recalled
  rw [hfull]
  dsimp only
  rw [Cache.served_eq, Cache.fresh, hentry, Option.filter_some]
  simp only [hover, Bool.not_false, if_true, Option.map_some, hread, if_neg hvalue]

/-- What is not held under a key now, or not any more, is not held later. -/
theorem World.recalled_of_holding (hnone : w.recalled d key = none)
    (hsame : ∀ full, d.cache.fullKey (.str key) = .ok full → later.holding d full = w.holding d full)
    (hle : w.host.network.now ≤ later.host.network.now) : later.recalled d key = none := by
  obtain ⟨full, hfull⟩ := d.cache.exists_fullKey key
  have hfresh := Cache.fresh_of_le (congrArg Prod.snd (hsame full hfull)) hle
  unfold World.recalled at hnone ⊢
  simp only [hfull] at hnone ⊢
  rw [Cache.served_eq] at hnone ⊢
  rw [hfresh]
  cases hheld : d.cache.fresh (w.cache, w.host) full with
  | none => rfl
  | some held =>
      rw [hheld] at hnone
      rw [Option.filter_some]
      by_cases hover : (!d.cache.isOver later.host.network.now held.2) = true
      · rw [if_pos hover]
        exact hnone
      · rw [if_neg hover]
        rfl

theorem World.reachesCache_of_holding (hsame : later.holding d full = w.holding d full) :
    later.ReachesCache d ↔ w.ReachesCache d := by
  unfold ReachesCache
  rw [show (d.cache.view .waiting (later.cache, later.host)).isConnected =
    (d.cache.view .waiting (w.cache, w.host)).isConnected from congrArg Prod.fst hsame]

theorem World.KeepsUntil.of_holding (h : w.KeepsUntil d key value limit)
    (hsame : ∀ full, d.cache.fullKey (.str key) = .ok full → later.holding d full = w.holding d full) :
    later.KeepsUntil d key value limit := by
  obtain ⟨full, content, hfull, hentry, hread⟩ := h
  exact ⟨full, content, hfull, (congrArg Prod.snd (hsame full hfull)).trans hentry, hread⟩

/-- The cache of a world holds, until the end of a time, a value that stands for a result of a lookup. -/
def World.Recollects (d : Deployment σ) (w : World σ) (l : Lookup) (m : Materialized)
    (limit : Option Float) : Prop :=
  ∃ value m', w.KeepsUntil d l.keyText value limit ∧ value ≠ .null ∧ l.ofRemembered value = .ok m' ∧
    m'.numbers = m.numbers ∧ Table.get? m'.record "count" = Table.get? m.record "count"

/-! ## Requests that are not taken back -/

/-- An action that takes no request back. -/
def AsksOn {α : Type} (x : Action σ α) : Prop := ∀ w : World σ, w.requests <:+ (x.outcome w).2.requests

namespace AsksOn

variable {α β : Type}

theorem of_leaves {x : Action σ α} (h : Leaves World.requests x) : AsksOn x := by
  intro w
  rw [h w]

theorem bind {x : Action σ α} {f : α → Action σ β} (hx : AsksOn x) (hf : ∀ a, AsksOn (f a)) :
    AsksOn (x >>= f) := by
  intro w
  rw [outcome_bind]
  have h := hx w
  rcases hr : x.outcome w with ⟨e | a, v⟩
  · rwa [hr] at h
  · rw [hr] at h
    exact h.trans (hf a v)

end AsksOn

/-! ## One lookup -/

namespace Lookup

/-- What has been remembered is held for the lifetime of the lookup. -/
theorem keepsUntil_of_remember {count : Int} {name : String} {numbers : Json}
    (h : (l.remember d count name numbers).outcome w = (.ok (), first))
    (hread : d.cache.readBack (d.cache.form (remembered count name numbers)) =
      .ok (remembered count name numbers)) : ∃ limit,
      d.cache.limitOf w.host.network.now (.float l.lifetime) = .ok limit ∧
      first.KeepsUntil d l.keyText (remembered count name numbers) limit ∧ first.ReachesCache d := by
  have hput : (d.cache.put .waiting (.str l.keyText) (remembered count name numbers)
      (.float l.lifetime)).outcome (w.cache, w.host) = (.ok (), first.cache, first.host) := by
    unfold remember onCache at h
    rw [outcome_onPart] at h
    obtain ⟨hok, rfl⟩ := Prod.mk.inj h
    exact Prod.ext hok rfl
  have hreaches : first.ReachesCache d := Cache.isConnected_of_put hput
  have hlinked : (d.cache.view .waiting (w.cache, w.host)).isConnected = true := by
    have hsame : (d.cache.view .waiting ((d.cache.put .waiting (.str l.keyText)
        (remembered count name numbers) (.float l.lifetime)).outcome (w.cache, w.host)).2).isConnected =
          (d.cache.view .waiting (w.cache, w.host)).isConnected :=
      Cache.leaves_isConnected_put _ _ _ (w.cache, w.host)
    rw [hput] at hsame
    exact hsame.symm.trans hreaches
  have hgiven : remembered count name numbers ≠ .null := by simp [remembered]
  obtain ⟨full, limit, site, hset, hfull, hlimit, -, hentry, -⟩ :=
    (Cache.accepts_of_put hput).outcome_put hlinked l.keyText hgiven
  obtain rfl : site = (first.cache, first.host) := (Prod.mk.inj (hset.symm.trans hput)).2
  exact ⟨limit, hlimit, ⟨full, _, hfull, hentry, hread⟩, hreaches⟩

theorem eq_of_storeList {id : String} {ids : List Json} {reference : Json}
    (h : (storeList d id ids).outcome w = (.ok reference, first)) :
    reference = Clause.reference (d.indexName IndexType.lookup) id "id" := by
  obtain ⟨_, _, -, h⟩ := exists_of_bind_ok h
  obtain ⟨_, _, -, h⟩ := exists_of_bind_ok h
  cases h
  rfl

/-- What a search has found is the result. It is remembered, unless the search was refused. -/
theorem outcome_keep_ok {found : Found} (h : (l.keep d found).outcome w = (.ok m, first)) :
    m = l.materializedOf d found ∧ (l.isStored found = false ∧ found.errors ≠ [] ∧ first = w ∨
      (l.isStored found = true ∨ found.errors = []) ∧ ∃ stored : World σ,
        stored.host.network.now = w.host.network.now ∧
        (l.remember d found.count (l.nameOf found) (l.numbersOf d found)).outcome stored = (.ok (), first)) := by
  unfold keep at h
  unfold materializedOf nameOf numbersOf
  dsimp only at h ⊢
  cases hlong : l.isStored found with
  | true =>
      rw [if_pos hlong] at h
      obtain ⟨reference, stored, hstore, h⟩ := exists_of_bind_ok h
      obtain ⟨_, after, hremember, h⟩ := exists_of_bind_ok h
      cases eq_of_storeList hstore
      cases h
      have hleaves : Leaves (fun w : World σ => w.host.network.now) (storeList d l.id found.ids) :=
        leaves_storeList (fun _ _ => rfl) _ _
      have hnow := hleaves w
      rw [hstore] at hnow
      exact ⟨rfl, .inr ⟨.inl rfl, stored, hnow, hremember⟩⟩
  | false =>
      rw [hlong] at h
      cases herrors : found.errors.isEmpty with
      | true =>
          simp only [herrors, if_true, Bool.false_eq_true, if_false] at h ⊢
          obtain ⟨_, after, hremember, h⟩ := exists_of_bind_ok h
          cases h
          exact ⟨rfl, .inr ⟨.inr (List.isEmpty_iff.mp herrors), w, rfl, hremember⟩⟩
      | false =>
          simp only [herrors, Bool.false_eq_true, if_false] at h ⊢
          cases h
          exact ⟨rfl, .inl ⟨trivial, by simpa using herrors, rfl⟩⟩

/-- What a search has come to is the result. Unless the search was refused it is remembered, and held for
the lifetime of the lookup. -/
theorem outcome_materialize_ok (hfits : d.cache.storage ≠ .memory → ∀ answer,
      (d.client.send (l.request d) w.engine).1 = .ok answer → Json.Fits Json.argumentDepth answer)
    (h : (l.materialize d).outcome w = (.ok m, first)) :
    (Table.get? m.record "errors" = none ∧ ∃ limit,
        d.cache.limitOf w.host.network.now (.float l.lifetime) = .ok limit ∧
        first.Recollects d l m limit ∧ first.ReachesCache d) ∨
      Table.get? m.record "errors" ≠ none ∧ first = w.asked d (l.request d) := by
  obtain ⟨found, searched, hfind, h⟩ := exists_of_bind_ok h
  rw [find_eq, outcome_bind_of_ok (outcome_ask d _ w), outcome_ofExcept] at hfind
  obtain ⟨hfound, rfl⟩ := Prod.mk.inj hfind
  obtain ⟨rfl, ⟨-, herrors, rfl⟩ | ⟨hgood, stored, hnow, hremember⟩⟩ := outcome_keep_ok h
  · exact .inr ⟨by simp [materializedOf, herrors, Table.get?], rfl⟩
  · have herrors : found.errors = [] := by
      by_contra herrors
      rcases hgood with hlong | hnone
      · rw [isStored_of_errors hfound herrors] at hlong
        cases hlong
      · exact herrors hnone
    have hread : d.cache.readBack (d.cache.form (l.valueOf d found)) = .ok (l.valueOf d found) := by
      by_cases hstorage : d.cache.storage = .memory
      · exact Cache.readBack_form fun hserver => absurd hstorage hserver
      · exact readBack_valueOf (hfits hstorage) hfound
    obtain ⟨limit, hlimit, hkeeps, hreaches⟩ := keepsUntil_of_remember hremember hread
    refine .inl ⟨by simp [materializedOf, herrors, Table.get?], limit, ?_, ?_, hreaches⟩
    · rw [← hlimit, hnow]
      rfl
    · exact ⟨l.valueOf d found, _, hkeeps, by simp [valueOf, remembered], ofRemembered_valueOf, rfl,
        by simp [materializedOf, herrors, Table.get?]⟩

/-- A result that was remembered tells nothing of errors. -/
theorem get?_errors_ofRemembered (h : l.ofRemembered value = .ok m) :
    Table.get? m.record "errors" = none := by
  unfold ofRemembered at h
  split at h
  · cases h
  · split at h
    · cases h
      simp [Table.get?]
    · cases h
      simp [Table.get?]
    · cases h

/-- A lookup that has a result: the cache holds what stands for it, or else its search was refused and
the cache says the same as before. -/
theorem outcome_resolve_ok (hfits : d.cache.storage ≠ .memory → ∀ answer,
      (d.client.send (l.request d) w.engine).1 = .ok answer → Json.Fits Json.argumentDepth answer)
    (h : (l.resolve d).outcome w = (.ok m, first)) : first.ReachesCache d ∧
      ((Table.get? m.record "errors" = none ∧ ∃ limit, first.Recollects d l m limit ∧
        (w.recalled d l.keyText = none →
          d.cache.limitOf w.host.network.now (.float l.lifetime) = .ok limit)) ∨
      Table.get? m.record "errors" ≠ none ∧ first.recalled d = w.recalled d ∧
        w.recalled d l.keyText = none) := by
  have hlinked : w.ReachesCache d := by
    by_contra hlost
    obtain ⟨e, looked, -, -, hresolve⟩ := l.outcome_resolve_of_not_reachesCache hlost
    rw [hresolve] at h
    cases h
  obtain ⟨looked, hprospect, hresolve⟩ := l.outcome_resolve hlinked
  have hlooked : looked.ReachesCache d := (World.reachesCache_of_prospect hprospect).mpr hlinked
  have hrecalled : looked.recalled d = w.recalled d := World.recalled_of_prospect hprospect
  have hengine : looked.engine = w.engine := congrArg World.Prospect.engine hprospect
  have hnow : looked.host.network.now = w.host.network.now := congrArg World.Prospect.now hprospect
  rw [hresolve] at h
  cases hfound : w.recalled d l.keyText with
  | some found =>
      rw [hfound] at h
      obtain ⟨hvalue, rfl⟩ := Prod.mk.inj h
      obtain ⟨value, rfl, hm⟩ := Failure.exists_of_bind_ok hvalue
      obtain ⟨hgiven, limit, hkeeps⟩ := World.exists_keepsUntil ((congrFun hrecalled _).trans hfound)
      exact ⟨hlooked, .inl ⟨get?_errors_ofRemembered hm, limit,
        ⟨value, m, hkeeps, hgiven, hm, rfl, rfl⟩, by simp⟩⟩
  | none =>
      rw [hfound] at h
      rcases outcome_materialize_ok (hengine ▸ hfits) h with
        ⟨herrors, limit, hlimit, hrecollects, hreaches⟩ | ⟨herrors, rfl⟩
      · exact ⟨hreaches, .inl ⟨herrors, limit, hrecollects, fun _ => hnow ▸ hlimit⟩⟩
      · exact ⟨(World.reachesCache_asked _).mpr hlooked,
          .inr ⟨herrors, (World.recalled_asked _).trans hrecalled, rfl⟩⟩

/-- What is recollected is the result, and nothing is asked. -/
theorem outcome_resolve_of_recollects (hreaches : later.ReachesCache d)
    (hkeeps : later.Recollects d l m limit)
    (hover : d.cache.isOver later.host.network.now limit = false) :
    ∃ m' again, (l.resolve d).outcome later = (.ok m', again) ∧ m'.numbers = m.numbers ∧
      Table.get? m'.record "count" = Table.get? m.record "count" ∧ again.prospect d = later.prospect d := by
  obtain ⟨value, m', hkeeps, hgiven, hm', hnumbers, hcount⟩ := hkeeps
  obtain ⟨again, hprospect, hresolve⟩ := l.outcome_resolve hreaches
  rw [hkeeps.recalled hgiven hover] at hresolve
  exact ⟨m', again, hresolve.trans (congrArg (Prod.mk · again) hm'), hnumbers, hcount, hprospect⟩

/-- Keeping what has been found takes no request back. -/
theorem asksOn_keep (found : Found) : AsksOn (l.keep d found) := by
  have hunit : ∀ r, AsksOn (d.demand r >>= fun _ => (pure () : Action σ Unit)) := by
    intro r w
    rw [d.outcome_demand_unit]
    dsimp only
    rw [World.requests_asked]
    exact List.suffix_cons _ _
  have hstore : AsksOn (storeList d l.id found.ids) :=
    (hunit _).bind fun _ => (hunit _).bind fun _ => .of_leaves (Leaves.pure _)
  have hremember : ∀ name numbers, AsksOn (l.remember d found.count name numbers) := fun name numbers =>
    .of_leaves fun w => l.requests_put w (remembered found.count name numbers)
  unfold keep
  dsimp only
  split
  · exact hstore.bind fun reference => (hremember "ref" reference).bind fun _ => .of_leaves (Leaves.pure _)
  · split
    · exact (hremember "ids" _).bind fun _ => .of_leaves (Leaves.pure _)
    · exact .of_leaves (Leaves.pure _)

/-- Where nothing is recalled, a search is made. -/
theorem requests_resolve_of_recalled (hreaches : later.ReachesCache d)
    (hnone : later.recalled d l.keyText = none) :
    (l.request d).call :: later.requests <:+ ((l.resolve d).outcome later).2.requests := by
  obtain ⟨looked, hprospect, hresolve⟩ := l.outcome_resolve hreaches
  have hrequests : (looked.asked d (l.request d)).requests = (l.request d).call :: later.requests := by
    rw [World.requests_asked]
    exact congrArg _ (congrArg World.Prospect.requests hprospect)
  rw [hresolve, hnone, ← hrequests]
  dsimp only
  unfold materialize
  rw [find_eq, bind_assoc, outcome_bind_of_ok (outcome_ask d _ looked), outcome_bind, outcome_ofExcept]
  cases l.ofSearch (d.client.send (l.request d) looked.engine).1 with
  | error e => exact List.suffix_rfl
  | ok found => exact asksOn_keep found _

end Lookup

/-! ## Two equal calls -/

namespace LookupCall

variable {call : LookupCall} {r : Resolved} {steps : List LookupStep}

/-- Steps that look nothing up under the key of a call. -/
def IsSpared (d : Deployment σ) (call : LookupCall) (steps : List LookupStep) : Prop :=
  ∀ l, call.lookup? d = some l → ∀ step ∈ steps, step.IsApart d l.keyText

/-- A call that resolves no lookup knows of no search that was refused. -/
theorem get?_errors_of_lookup? (hl : call.lookup? d = none) (h : (call.run d).outcome w = (.ok r, first)) :
    Table.get? r.record "errors" = none := by
  cases call with
  | plain key field params => cases hl
  | chain property text field params => cases hl
  | concept c number description params =>
      simp only [lookup?, Option.map_eq_none_iff] at hl
      obtain ⟨text, searched, htext, -⟩ := exists_of_bind_ok h
      rw [outcome_ofExcept] at htext
      rw [(Prod.mk.inj htext).1] at hl
      cases hl
  | inverse key field params =>
      simp only [run, Deployment.lookupInverse] at h
      split at h
      · cases h
        simp [Table.get?]
      · rename_i hthere
        simp [lookup?, hthere] at hl

/-- The second of two equal calls, with any lookups under other keys and any time between them. If the
first has an answer that tells of no errors, then until the end of the time for which it is remembered the
second has the same clause and the same number, and sends no request. If the search of the first was
refused, nothing is remembered of it, and the second searches. For a cache on a server the answer of the
engine is one that a JSON text can give: each object has distinct keys, and it is nested no deeper than what
is read back. -/
theorem run_again (hfits : d.cache.storage ≠ .memory → ∀ l, call.lookup? d = some l → ∀ answer,
      (d.client.send (l.request d) w.engine).1 = .ok answer → Json.Fits Json.argumentDepth answer)
    (h : (call.run d).outcome w = (.ok r, first)) :
    (Table.get? r.record "errors" = none → ∃ limit,
      (∀ l, call.lookup? d = some l → (∃ value, first.KeepsUntil d l.keyText value limit) ∧
        (w.recalled d l.keyText = none →
          d.cache.limitOf w.host.network.now (.float l.lifetime) = .ok limit)) ∧
      ∀ steps, call.IsSpared d steps →
        let later := (LookupStep.run d first steps).1
        d.cache.isOver later.host.network.now limit = false →
        ∃ r' again, (call.run d).outcome later = (.ok r', again) ∧ r'.clause = r.clause ∧
          Table.get? r'.record "count" = Table.get? r.record "count" ∧
          again.requests = later.requests ∧ again.engine = later.engine) ∧
    (Table.get? r.record "errors" ≠ none → first.recalled d = w.recalled d ∧
      ∃ l, call.lookup? d = some l ∧ ∀ steps, call.IsSpared d steps →
        let later := (LookupStep.run d first steps).1
        first.host.network.now ≤ later.host.network.now →
        (l.request d).call :: later.requests <:+ ((call.run d).outcome later).2.requests) := by
  cases hl : call.lookup? d with
  | none =>
      have herrors := get?_errors_of_lookup? hl h
      obtain ⟨answer, -, hrun⟩ := own_of_lookup? hl
      rw [hrun, outcome_ofExcept] at h
      obtain ⟨rfl, rfl⟩ := Prod.mk.inj h
      refine ⟨fun _ => ⟨none, by simp, fun steps _ _ => ⟨r, _, ?_, rfl, rfl, rfl, rfl⟩⟩,
        fun hsome => absurd herrors hsome⟩
      rw [hrun, outcome_ofExcept]
  | some l =>
      obtain ⟨header, hheader, hrun⟩ := run_of_lookup? hl
      have hget : ∀ key ∈ ["errors", "count"], ∀ m : Materialized,
          Table.get? (header ++ m.record) key = Table.get? m.record key := by
        intro key hkey m
        exact Table.get?_append (hheader key hkey)
      rw [hrun] at h
      obtain ⟨m, resolved, hresolve, h⟩ := exists_of_bind_ok h
      cases h
      obtain ⟨hreaches, hresult⟩ := l.outcome_resolve_ok (fun hserver => hfits hserver l hl) hresolve
      have hsame : ∀ {steps : List LookupStep}, call.IsSpared d steps → ∀ full,
          d.cache.fullKey (.str l.keyText) = .ok full →
            (LookupStep.run d first steps).1.holding d full = first.holding d full :=
        fun hspared full hfull => LookupStep.holding_run hfull (hspared l hl) first
      have hreaches' : ∀ {steps : List LookupStep}, call.IsSpared d steps →
          (LookupStep.run d first steps).1.ReachesCache d := by
        intro steps hspared
        obtain ⟨full, hfull⟩ := d.cache.exists_fullKey l.keyText
        exact (World.reachesCache_of_holding (hsame hspared full hfull)).mpr hreaches
      simp only [hget "errors" (by simp), hget "count" (by simp), Option.some.injEq, forall_eq']
      rcases hresult with ⟨hnone, limit, ⟨value, m', hkeeps, hrest⟩, hlimit⟩ | ⟨herrors, hrecalled, hnone⟩
      · refine ⟨fun _ => ⟨limit, ⟨⟨value, hkeeps⟩, hlimit⟩, fun steps hspared hover => ?_⟩,
          fun hsome => absurd hnone hsome⟩
        obtain ⟨m'', again, hagain, hnumbers, hcount, hprospect⟩ := l.outcome_resolve_of_recollects (m := m)
          (hreaches' hspared) ⟨value, m', hkeeps.of_holding (hsame hspared), hrest⟩ hover
        refine ⟨⟨d.hasNumber call.target m''.numbers, header ++ m''.record⟩, again, ?_, ?_, ?_,
          congrArg World.Prospect.requests hprospect, congrArg World.Prospect.engine hprospect⟩
        · rw [hrun, outcome_bind_of_ok hagain]
          rfl
        · rw [hnumbers]
        · rw [hget "count" (by simp), hcount]
      · refine ⟨fun herror => absurd herror herrors, fun _ => ⟨hrecalled, l, rfl, fun steps hspared hle => ?_⟩⟩
        rw [LookupCall.outcome_run, hl]
        refine l.requests_resolve_of_recalled (hreaches' hspared) ?_
        exact World.recalled_of_holding ((congrFun hrecalled _).trans hnone) (hsame hspared) hle

/-! ## Towns -/

/-- A store whose cache is on the key-value server, and which stores the members of every concept. -/
private def serverDeployment : Deployment Cluster where
  client := Cluster.client
  settings := { subquery := { conceptThreshold := 1 } }
  cache := { storage := .server { url := .str "redis://localhost" } (.obj []) }
  queue := {}

private def townsWorld : World Cluster where
  engine := { script := [.single "hits" (.arr [.int 10]), .single "hits" (.arr [.int 11])] }
  catalog := { next := 100 }

private def townsCall : LookupCall :=
  .concept { title := "Places", space := 108 } (.int 100) (.category [{ title := "Town", space := 14 }] none false)
    (.arr [])

/-- What the call looks up. -/
private def townsLookup : Lookup :=
  serverDeployment.conceptLookup (.int 100)
    (Description.category [{ title := "Town", space := 14 }] none false).fingerprint (.arr [])

/-- A minute less a second, with a lookup of another kind and with other settings in it. -/
private def townsSteps : List LookupStep :=
  [.wait 30, .call {} (.inverse "Located_in" "P:25.wpgID" (.arr [.int 13])), .wait 29]

/-- The answer with one number. -/
private def townsAnswer : Json := .obj [("took", .int 1), ("hits", .obj [
  ("total", .single "value" (.int 1)), ("max_score", .null),
  ("hits", .arr [.obj [("_id", .str "10"), ("_source", .obj [])]])])]

private theorem fits_townsAnswer : Json.Fits 5 townsAnswer := by
  refine .obj (by decide) (List.forall_mem_cons.mpr ⟨.int 1, List.forall_mem_singleton.mpr ?_⟩)
  refine .obj (by decide) (List.forall_mem_cons.mpr ⟨?_, List.forall_mem_cons.mpr ⟨.null, ?_⟩⟩)
  · exact .obj (by decide) (List.forall_mem_singleton.mpr (.int 1))
  · refine List.forall_mem_singleton.mpr (.arr (List.forall_mem_singleton.mpr ?_))
    refine .obj (by decide) (List.forall_mem_cons.mpr ⟨.str "10", List.forall_mem_singleton.mpr ?_⟩)
    exact .obj (by decide) (List.forall_mem_nil _)

private theorem towns_run :
    (serverDeployment.client.send (townsLookup.request serverDeployment) townsWorld.engine).1 =
        .ok townsAnswer ∧
      (((townsCall.run serverDeployment).outcome townsWorld).1.toOption.map fun r =>
        Table.get? r.record "errors") = some none ∧
      townsWorld.recalled serverDeployment townsLookup.keyText = none ∧
      serverDeployment.cache.limitOf townsWorld.host.network.now (.float townsLookup.lifetime) =
        .ok (some 1060) ∧
      (LookupStep.run serverDeployment ((townsCall.run serverDeployment).outcome townsWorld).2
        townsSteps).1.host.network.now = 1059 := by
  decide +kernel

private theorem lookup?_towns : townsCall.lookup? serverDeployment = some townsLookup := rfl

private theorem isSpared_towns : townsCall.IsSpared serverDeployment townsSteps := by
  intro l hl
  cases lookup?_towns.symm.trans hl
  refine List.forall_mem_cons.mpr ⟨trivial, List.forall_mem_cons.mpr ⟨?_, List.forall_mem_singleton.mpr trivial⟩⟩
  rintro other ⟨⟩
  decide +kernel

theorem run_again_towns : ∃ r first,
    (∀ l, townsCall.lookup? serverDeployment = some l → ∀ answer,
      (serverDeployment.client.send (l.request serverDeployment) townsWorld.engine).1 = .ok answer →
        Json.Fits Json.argumentDepth answer) ∧
      (townsCall.run serverDeployment).outcome townsWorld = (.ok r, first) ∧
      Table.get? r.record "errors" = none ∧ townsCall.IsSpared serverDeployment townsSteps ∧
      let later := (LookupStep.run serverDeployment first townsSteps).1
      ∃ r' again, (townsCall.run serverDeployment).outcome later = (.ok r', again) ∧ r'.clause = r.clause ∧
        Table.get? r'.record "count" = Table.get? r.record "count" ∧
        again.requests = later.requests ∧ again.engine = later.engine := by
  obtain ⟨hanswer, hfirst, hnone, hlimit, hnow⟩ := towns_run
  have hfits : ∀ l, townsCall.lookup? serverDeployment = some l → ∀ answer,
      (serverDeployment.client.send (l.request serverDeployment) townsWorld.engine).1 = .ok answer →
        Json.Fits Json.argumentDepth answer := by
    intro l hl answer h
    cases lookup?_towns.symm.trans hl
    cases hanswer.symm.trans h
    exact fits_townsAnswer.mono (by decide)
  obtain ⟨r, hr, herrors⟩ := Option.map_eq_some_iff.mp hfirst
  have hrun : (townsCall.run serverDeployment).outcome townsWorld =
      (.ok r, ((townsCall.run serverDeployment).outcome townsWorld).2) := by
    cases h : ((townsCall.run serverDeployment).outcome townsWorld).1 with
    | error e =>
        rw [h] at hr
        cases hr
    | ok r' =>
        rw [h] at hr
        cases hr
        exact Prod.ext h rfl
  obtain ⟨limit, hkept, hagain⟩ := (run_again (fun _ => hfits) hrun).1 herrors
  obtain rfl : some 1060 = limit := Except.ok.inj (hlimit.symm.trans ((hkept _ lookup?_towns).2 hnone))
  refine ⟨r, _, hfits, hrun, herrors, isSpared_towns, hagain townsSteps isSpared_towns ?_⟩
  rw [hnow]
  decide +kernel

end LookupCall

end FactIndex
