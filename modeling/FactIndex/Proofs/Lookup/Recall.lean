import FactIndex.Proofs.Cache.Entry
import FactIndex.Proofs.Failure
import FactIndex.Proofs.Lookup.Memo
import FactIndex.Proofs.Store.Growth

/-!
# What a store recalls

A lookup is answered from the cache if there is something under its key, and so the cache of a world is
known by what it recalls. Looking changes nothing of that, and remembering a result changes it under one
key.

## Main definitions

* `World.recalled`: what a lookup with a key is answered with, if it is not searched for.
* `World.requests`: the requests that have been sent to the search engine.
* `World.Prospect`, `World.prospect`: all that matters of a world for what becomes of a lookup.
* `World.Behind`, `World.Later`: a world that has not come so far, and one that is further on.
* `Lookup.outcome_resolve`, `Lookup.outcome_remember`: looking and remembering.
-/

namespace FactIndex

open FactIndex.Effect

variable {σ : Type} {d : Deployment σ} {u v w : World σ} {key : String}

/-! ## Requests to the search engine -/

/-- The names of the requests to the search engine. -/
def Request.names : List String :=
  ["ping", "search", "count", "validate", "index", "refresh", "bulk", "exists", "exists_alias", "get_alias",
    "create", "delete_index", "update_aliases", "close"]

theorem Request.name_mem (r : Request) : r.name ∈ names := by cases r <;> simp [name, names]

/-- The requests that have been sent to the search engine, the last one first. -/
def World.requests (w : World σ) : List Call :=
  w.host.network.calls.filter fun call => Request.names.contains call.name

theorem World.requests_asked (r : Request) : (w.asked d r).requests = r.call :: w.requests :=
  List.filter_cons_of_pos (List.contains_iff_mem.mpr r.name_mem)

/-- Commands to the key-value server are no requests to the search engine. -/
theorem KeyValue.Host.IsQuiet.requests : Host.IsQuiet
    (fun h : Host => h.network.calls.filter fun call => Request.names.contains call.name) := by
  intro h name arguments
  have hother : ∀ known ∈ Request.names, known.toList.take 6 ≠ "redis.".toList := by decide
  have hname : ¬ "redis." ++ name ∈ Request.names := fun hmem => hother _ hmem (by simp)
  exact List.filter_cons_of_neg (by simpa using hname)

/-! ## Prospects -/

/-- What is read of the cache under the key of a lookup. If that is nothing, a search is made. -/
def World.recalled (d : Deployment σ) (w : World σ) (key : String) : Option (Except Failure Json) :=
  match d.cache.fullKey (.str key) with
  | .error _ => none
  | .ok full =>
    match (d.cache.served (w.cache, w.host) full).map d.cache.readBack with
    | some (.ok value) => if value = .null then none else some (.ok value)
    | found => found

/-- The cache can be reached. -/
def World.ReachesCache (d : Deployment σ) (w : World σ) : Prop :=
  (d.cache.view .waiting (w.cache, w.host)).isConnected = true

/-- What matters of a world for what becomes of a lookup. -/
structure World.Prospect (σ : Type) where
  cache : Cache.View
  engine : σ
  catalog : Catalog
  now : Float
  requests : List Call

/-- What matters of a world for what becomes of a lookup. -/
def World.prospect (d : Deployment σ) (w : World σ) : World.Prospect σ :=
  ⟨d.cache.view .waiting (w.cache, w.host), w.engine, w.catalog, w.host.network.now, w.requests⟩

/-- What is recalled fails by itself, if it cannot be read. -/
theorem World.own_recalled {found : Except Failure Json} (h : w.recalled d key = some found) :
    Failure.Own found := by
  unfold recalled at h
  split at h
  · cases h
  · split at h
    · split at h
      · cases h
      · cases h
        exact .ok _
    · rename_i content hcontent
      obtain ⟨content, -, rfl⟩ := Option.map_eq_some_iff.mp h
      rcases d.cache.readBack_cases content with ⟨value, hvalue⟩ | hnone
      · rw [hvalue]
        exact .ok _
      · rw [hnone]
        exact .error rfl

/-- The prospect after an operation on the cache that changes nothing that is seen. -/
theorem World.prospect_setCache {w : World σ} {site : Cache.Site}
    (hview : d.cache.view .waiting site = d.cache.view .waiting (w.cache, w.host))
    (hnow : site.2.network.now = w.host.network.now)
    (hrequests : site.2.network.calls.filter (fun call => Request.names.contains call.name) = w.requests) :
    ({ w with cache := site.1, host := site.2 } : World σ).prospect d = w.prospect d := by
  unfold prospect
  exact congr (congr (congrArg (fun view => Prospect.mk view w.engine w.catalog) hview) hnow) hrequests

/-- A world that recalls less and has fewer numbers, or has come just as far. -/
structure World.Behind (d : Deployment σ) (u v : World σ) : Prop where
  catalog : u.catalog.Reaches v.catalog
  recalled : ∀ key found, u.recalled d key = some found → v.recalled d key = some found
  reachesCache : u.ReachesCache d → v.ReachesCache d

/-- A world that is further on at the same time, and in which more has been asked. -/
structure World.Later (d : Deployment σ) (u v : World σ) : Prop extends World.Behind d u v where
  requests : u.requests <:+ v.requests
  now : v.host.network.now = u.host.network.now

theorem World.recalled_congr (hview : d.cache.view .waiting (v.cache, v.host) =
    d.cache.view .waiting (w.cache, w.host)) : v.recalled d = w.recalled d := by
  have hserved : d.cache.served (v.cache, v.host) = d.cache.served (w.cache, w.host) :=
    congrArg Cache.View.served hview
  funext key
  unfold World.recalled
  rw [hserved]

theorem World.recalled_of_prospect (h : v.prospect d = w.prospect d) : v.recalled d = w.recalled d :=
  recalled_congr (congrArg Prospect.cache h)

theorem World.reachesCache_of_prospect (h : v.prospect d = w.prospect d) : v.ReachesCache d ↔ w.ReachesCache d := by
  unfold World.ReachesCache
  rw [show d.cache.view .waiting (v.cache, v.host) = d.cache.view .waiting (w.cache, w.host) from
    congrArg Prospect.cache h]

/-- A request to the search engine leaves the cache as it is. -/
theorem World.view_asked (r : Request) : d.cache.view .waiting ((w.asked d r).cache, (w.asked d r).host) =
    d.cache.view .waiting (w.cache, w.host) := by
  unfold Cache.view Cache.served
  cases d.cache.storage <;> rfl

theorem World.recalled_asked (r : Request) : (w.asked d r).recalled d = w.recalled d :=
  recalled_congr (view_asked r)

theorem World.reachesCache_asked (r : Request) : (w.asked d r).ReachesCache d ↔ w.ReachesCache d := by
  unfold ReachesCache
  rw [view_asked]

namespace World.Behind

theorem refl (d : Deployment σ) (w : World σ) : w.Behind d w := ⟨.refl, fun _ _ => id, id⟩

theorem trans (h : u.Behind d v) (h' : v.Behind d w) : u.Behind d w :=
  ⟨h.catalog.trans h'.catalog, fun key found hfound => h'.recalled key found (h.recalled key found hfound),
    h'.reachesCache ∘ h.reachesCache⟩

end World.Behind

namespace World.Later

theorem refl (d : Deployment σ) (w : World σ) : w.Later d w := ⟨.refl d w, List.suffix_rfl, rfl⟩

theorem trans (h : u.Later d v) (h' : v.Later d w) : u.Later d w :=
  ⟨h.toBehind.trans h'.toBehind, h.requests.trans h'.requests, h'.now.trans h.now⟩

theorem of_prospect (h : v.prospect d = w.prospect d) : w.Later d v where
  catalog := (show v.catalog = w.catalog from congrArg Prospect.catalog h) ▸ .refl
  recalled key found hfound := by rwa [recalled_of_prospect h]
  reachesCache := (reachesCache_of_prospect h).mpr
  requests := (show v.requests = w.requests from congrArg Prospect.requests h) ▸ List.suffix_rfl
  now := congrArg Prospect.now h

/-- After a request to the search engine. -/
theorem asked (d : Deployment σ) (r : Request) (w : World σ) : w.Later d (w.asked d r) where
  catalog := .refl
  recalled key found hfound := by rwa [recalled_asked]
  reachesCache := (reachesCache_asked r).mpr
  requests := by
    rw [requests_asked]
    exact List.suffix_cons _ _
  now := rfl

end World.Later

/-! ## Looking -/

/-- Looking into the cache changes nothing that matters. -/
theorem Deployment.leaves_prospect_cached (d : Deployment σ) (key : Json) :
    Leaves (World.prospect d) (d.cached? key) := by
  have hget : Leaves (World.prospect d)
      (Effect.attempt (onCache (d.cache.get .waiting key) : Action σ Json)) := fun w =>
    World.prospect_setCache (d.cache.leaves_get .waiting key (w.cache, w.host))
      (Cache.leaves_host_get (show KeyValue.Host.IsQuiet fun h => h.network.now from fun _ _ _ => rfl) key
        (w.cache, w.host))
      (Cache.leaves_host_get KeyValue.Host.IsQuiet.requests key (w.cache, w.host))
  refine hget.bind fun r => ?_
  split
  · exact Leaves.pure _
  · exact Leaves.pure _
  · exact Leaves.throw _

/-- A missing value is no failure. -/
theorem Deployment.fst_cached (d : Deployment σ) (key : Json) (w : World σ) :
    ((d.cached? key).outcome w).1 = match ((d.cache.get .waiting key).outcome (w.cache, w.host)).1 with
      | .ok value => .ok (some value)
      | .error (.notFound _) => .ok none
      | .error e => .error e := by
  have hattempt : ((Effect.attempt (onCache (d.cache.get .waiting key) : Action σ Json)).outcome w).1 =
      .ok ((d.cache.get .waiting key).outcome (w.cache, w.host)).1 := rfl
  unfold Deployment.cached?
  rw [outcome_bind_of_answer hattempt]
  rcases ((d.cache.get .waiting key).outcome (w.cache, w.host)).1 with e | value
  · cases e <;> rfl
  · rfl

theorem Deployment.own_cached (d : Deployment σ) (key : Json) : Effect.Own (d.cached? key) := by
  intro w
  have hget := d.cache.own_get .waiting key (w.cache, w.host)
  rw [d.fst_cached]
  rcases hr : ((d.cache.get .waiting key).outcome (w.cache, w.host)).1 with e | value
  · have hown := hget e hr
    cases e <;> first | exact Failure.Own.ok _ | exact Failure.Own.error hown
  · exact Failure.Own.ok _

/-- A cache that cannot be reached is a failure. -/
theorem Deployment.exists_fst_cached (hlost : ¬ w.ReachesCache d) (key : Json) :
    ∃ e, ((d.cached? key).outcome w).1 = .error e := by
  rw [d.fst_cached]
  rcases hr : ((d.cache.get .waiting key).outcome (w.cache, w.host)).1 with e | value
  · cases e with
    | notFound text => exact absurd (Cache.isConnected_of_get (.inr ⟨text, hr⟩)) hlost
    | _ => exact ⟨_, rfl⟩
  · exact absurd (Cache.isConnected_of_get (.inl ⟨value, hr⟩)) hlost

/-- A lookup answers with what is recalled under its key. Otherwise it searches. -/
theorem Lookup.outcome_resolve (hlinked : w.ReachesCache d) (l : Lookup) : ∃ looked : World σ,
    looked.prospect d = w.prospect d ∧ (l.resolve d).outcome w =
      match w.recalled d l.keyText with
      | some found => (found >>= l.ofRemembered, looked)
      | none => (l.materialize d).outcome looked := by
  obtain ⟨full, hfull⟩ := d.cache.exists_fullKey l.keyText
  have hanswer := d.fst_cached l.key w
  rw [l.key_eq, Cache.get_eq hlinked hfull, ← l.key_eq] at hanswer
  refine ⟨((d.cached? l.key).outcome w).2, d.leaves_prospect_cached _ w, ?_⟩
  unfold World.recalled resolve
  rw [hfull]
  dsimp only
  cases hserved : d.cache.served (w.cache, w.host) full with
  | none =>
      rw [hserved] at hanswer
      rw [outcome_bind_of_answer hanswer]
      rfl
  | some content =>
      rw [hserved] at hanswer
      dsimp only [Option.map_some] at hanswer ⊢
      rcases d.cache.readBack_cases content with ⟨value, hvalue⟩ | hnone
      · rw [hvalue] at hanswer ⊢
        rw [outcome_bind_of_answer hanswer]
        dsimp only [Except.map]
        by_cases hnull : value = .null
        · rw [if_pos hnull, if_pos hnull]
        · rw [if_neg hnull, if_neg hnull]
          exact outcome_ofExcept _ _
      · rw [hnone] at hanswer ⊢
        exact outcome_bind_of_error (Prod.ext hanswer rfl) _

/-- A lookup that cannot reach the cache fails by itself. -/
theorem Lookup.outcome_resolve_of_not_reachesCache (hlost : ¬ w.ReachesCache d) (l : Lookup) :
    ∃ e looked, looked.prospect d = w.prospect d ∧ e.isOwn = true ∧
      (l.resolve d).outcome w = (.error e, looked) := by
  obtain ⟨e, he⟩ := d.exists_fst_cached hlost l.key
  exact ⟨e, _, d.leaves_prospect_cached _ w, d.own_cached _ _ e he,
    outcome_bind_of_error (Prod.ext he rfl) _⟩

/-! ## Remembering -/

namespace Cache

open FactIndex.KeyValue

variable {c : Cache} {site after : Site} {way : Way} {ttl value : Json}

/-- The cache takes values for such a time, if it can be reached. -/
def Accepts (c : Cache) (ttl : Json) : Prop :=
  match c.storage with
  | .memory => ∃ seconds, secondsOf ttl = .ok seconds
  | .server _ options =>
    (∃ milliseconds, millisecondsOf ttl = .ok milliseconds) ∧ ∃ members, optionMembers options = .ok members

/-- What is not taken changes nothing that is seen. -/
theorem leaves_put_of_not_accepts (h : ¬ c.Accepts ttl) (key : Json) :
    Leaves (c.view way) (c.put way key value ttl) := by
  unfold Accepts at h
  unfold put
  cases hstorage : c.storage with
  | memory =>
      simp only [hstorage] at h
      dsimp only
      split
      · exact Leaves.throw _
      · exact Leaves.ofExcept_bind fun seconds hseconds => absurd ⟨seconds, hseconds⟩ h
  | server address options =>
      simp only [hstorage] at h
      refine leaves_onServer hstorage ?_
      split
      · exact Leaves.throw _
      · exact (Leaves.ofExcept _).bind fun _ => Leaves.ofExcept_bind fun ms hms =>
          Leaves.ofExcept_bind fun members hmembers => absurd ⟨⟨ms, hms⟩, members, hmembers⟩ h

/-- What has been set was taken. -/
theorem accepts_of_put {key : Json} (h : (c.put way key value ttl).outcome site = (.ok (), after)) :
    c.Accepts ttl := by
  unfold Accepts
  unfold put at h
  cases hstorage : c.storage with
  | memory =>
      simp only [hstorage] at h ⊢
      split at h
      · cases h
      · obtain ⟨seconds, u, hseconds, -⟩ := exists_of_bind_ok h
        rw [outcome_ofExcept] at hseconds
        exact ⟨seconds, (Prod.mk.inj hseconds).1⟩
  | server address options =>
      simp only [hstorage] at h ⊢
      obtain ⟨-, linked, -, h⟩ := exists_of_bind_ok h
      rw [outcome_onPart] at h
      have hset := (Prod.mk.inj h).1
      split at hset
      · cases hset
      · obtain ⟨full, s, -, h⟩ := exists_of_bind_ok (Prod.ext hset rfl)
        obtain ⟨ms, s, hms, h⟩ := exists_of_bind_ok h
        obtain ⟨members, s, hmembers, -⟩ := exists_of_bind_ok h
        rw [outcome_ofExcept] at hms hmembers
        exact ⟨⟨ms, (Prod.mk.inj hms).1⟩, members, (Prod.mk.inj hmembers).1⟩

theorem Accepts.exists_limitOf (h : c.Accepts ttl) (now : Float) : ∃ limit, c.limitOf now ttl = .ok limit := by
  unfold Accepts at h
  unfold limitOf
  cases hstorage : c.storage with
  | memory =>
      simp only [hstorage] at h
      obtain ⟨seconds, hseconds⟩ := h
      exact ⟨_, by rw [hseconds]; rfl⟩
  | server address options =>
      simp only [hstorage] at h
      obtain ⟨⟨ms, hms⟩, -⟩ := h
      exact ⟨_, by rw [hms]; rfl⟩

/-- What is taken is held until the end of its time, and what is held under other keys stays. -/
theorem Accepts.outcome_put (h : c.Accepts ttl) (hlink : (c.view way site).isConnected = true) (key : String)
    (hvalue : value ≠ .null) : ∃ full limit after,
      (c.put way (.str key) value ttl).outcome site = (.ok (), after) ∧ c.fullKey (.str key) = .ok full ∧
      c.limitOf site.2.network.now ttl = .ok limit ∧ after.2.network.now = site.2.network.now ∧
      c.entry after full = some (c.form value, limit) ∧
      ∀ other, full ≠ other → c.entry after other = c.entry site other := by
  obtain ⟨limit, hlimit⟩ := h.exists_limitOf site.2.network.now
  have hoptions : ∀ address options, c.storage = .server address options →
      ∃ members, optionMembers options = .ok members := by
    intro address options hstorage
    unfold Accepts at h
    simp only [hstorage] at h
    exact h.2
  obtain ⟨full, after, hput, hfull, hheld⟩ := outcome_put_limit hlink hoptions key hvalue hlimit
  exact ⟨full, limit, after, hput, hfull, hlimit, hheld⟩

end Cache

/-- What is remembered for so many seconds is there at least at the same moment. -/
def Deployment.Lasts (d : Deployment σ) (now seconds : Float) : Prop :=
  ∀ limit, d.cache.limitOf now (.float seconds) = .ok limit → d.cache.isOver now limit = false

/-- What is held under a key is recalled by it. -/
theorem World.recalled_of_entry {full : String} {value : Json} {limit : Option Float}
    (hfull : d.cache.fullKey (.str key) = .ok full)
    (hentry : d.cache.entry (w.cache, w.host) full = some (d.cache.form value, limit))
    (hover : d.cache.isOver w.host.network.now limit = false) (hvalue : value ≠ .null)
    (hread : d.cache.readBack (d.cache.form value) = .ok value) :
    w.recalled d key = some (.ok value) := by
  unfold recalled
  rw [hfull]
  dsimp only
  rw [Cache.served_eq, Cache.fresh, hentry, Option.filter_some]
  simp only [hover, Bool.not_false, if_true, Option.map_some, hread, if_neg hvalue]

/-- Where the same is held at the same time, the same is recalled. -/
theorem World.recalled_of_entry_eq (hentry : ∀ full, d.cache.fullKey (.str key) = .ok full →
      d.cache.entry (v.cache, v.host) full = d.cache.entry (w.cache, w.host) full)
    (hnow : v.host.network.now = w.host.network.now) : v.recalled d key = w.recalled d key := by
  unfold recalled
  obtain ⟨full, hfull⟩ := d.cache.exists_fullKey key
  rw [hfull]
  dsimp only
  rw [Cache.served_eq, Cache.served_eq, Cache.fresh, Cache.fresh, hentry full hfull]
  dsimp only
  rw [hnow]

/-- The value that is remembered of a lookup. -/
def Lookup.remembered (count : Int) (name : String) (numbers : Json) : Json :=
  .obj [("count", .int count), (name, numbers)]

/-- Remembering something is no request to the search engine. -/
theorem Lookup.requests_put (l : Lookup) (w : World σ) (value : Json) :
    ((d.cache.put .waiting l.key value (.float l.lifetime)).outcome
        (w.cache, w.host)).2.2.network.calls.filter (fun call => Request.names.contains call.name) =
      w.requests :=
  Cache.leaves_host_put KeyValue.Host.IsQuiet.requests (fun _ _ => rfl) l.key value (.float l.lifetime)
    (w.cache, w.host)

/-- What a cache that can be reached takes is recalled from then on, and nothing else changes. -/
theorem Lookup.outcome_remember (l : Lookup) (hlinked : w.ReachesCache d)
    (haccepts : d.cache.Accepts (.float l.lifetime)) (count : Int) (name : String) (numbers : Json) :
    ∃ after : World σ, (l.remember d count name numbers).outcome w = (.ok (), after) ∧
      after.engine = w.engine ∧ after.catalog = w.catalog ∧ after.requests = w.requests ∧
      after.host.network.now = w.host.network.now ∧ after.ReachesCache d ∧
      (∀ other, other ≠ l.keyText → after.recalled d other = w.recalled d other) ∧
      (d.Lasts w.host.network.now l.lifetime →
        d.cache.readBack (d.cache.form (remembered count name numbers)) = .ok (remembered count name numbers) →
        after.recalled d l.keyText = some (.ok (remembered count name numbers))) := by
  have hvalue : remembered count name numbers ≠ .null := nofun
  obtain ⟨full, limit, site, hput, hfull, hlimit, hnow, hself, hothers⟩ :=
    haccepts.outcome_put (show (d.cache.view .waiting (w.cache, w.host)).isConnected = true from hlinked)
      l.keyText hvalue
  have hrequests := l.requests_put (d := d) w (remembered count name numbers)
  rw [l.key_eq, hput] at hrequests
  refine ⟨{ w with cache := site.1, host := site.2 }, ?_, rfl, rfl, hrequests, hnow,
    Cache.isConnected_of_put hput, fun other hother => ?_, fun hlasts hread => ?_⟩
  · exact congrArg (fun put : Except Failure Unit × Cache.Site =>
      (put.1, ({ w with cache := put.2.1, host := put.2.2 } : World σ))) hput
  · refine World.recalled_of_entry_eq (fun full' hfull' => hothers full' ?_) hnow
    rintro rfl
    exact hother (Cache.fullKey_inj hfull' hfull)
  · exact World.recalled_of_entry hfull hself (hnow ▸ hlasts limit hlimit) hvalue hread

/-- What a cache does not take changes nothing that matters. -/
theorem Lookup.outcome_remember_of_not_accepts (l : Lookup) (w : World σ)
    (h : ¬ d.cache.Accepts (.float l.lifetime)) (count : Int) (name : String) (numbers : Json) :
    ∃ e after, e.isOwn = true ∧ (l.remember d count name numbers).outcome w = (.error e, after) ∧
      after.prospect d = w.prospect d := by
  have hview : Leaves (d.cache.view .waiting)
      (d.cache.put .waiting l.key (remembered count name numbers) (.float l.lifetime)) :=
    Cache.leaves_put_of_not_accepts h l.key
  have hview := hview (w.cache, w.host)
  have hnow : Leaves (fun site : Cache.Site => site.2.network.now)
      (d.cache.put .waiting l.key (remembered count name numbers) (.float l.lifetime)) :=
    Cache.leaves_host_put (show KeyValue.Host.IsQuiet fun h => h.network.now from fun _ _ _ => rfl)
      (fun _ _ => rfl) _ _ _
  have hnow := hnow (w.cache, w.host)
  have hrequests := l.requests_put (d := d) w (remembered count name numbers)
  have hown := d.cache.own_put .waiting l.key (remembered count name numbers) (.float l.lifetime)
    (w.cache, w.host)
  rcases hr : (d.cache.put .waiting l.key (remembered count name numbers) (.float l.lifetime)).outcome
      (w.cache, w.host) with ⟨e | ⟨⟩, site⟩
  · rw [hr] at hview hnow hrequests hown
    refine ⟨e, { w with cache := site.1, host := site.2 }, hown e rfl, ?_, ?_⟩
    · exact congrArg (fun put : Except Failure Unit × Cache.Site =>
        (put.1, ({ w with cache := put.2.1, host := put.2.2 } : World σ))) hr
    · exact World.prospect_setCache hview hnow hrequests
  · exact absurd (Cache.accepts_of_put hr) h

end FactIndex
