import FactIndex.Proofs.Cache.View
import FactIndex.Proofs.Decimal.Order
import FactIndex.Proofs.Lookup.History

/-!
# How long a cache keeps what it holds

A cache in memory can always be used. One on the key-value server can be used if the link can be opened
and if its options and the time for which values are kept make sense. Then what is kept in a readable form
is answered.

What a cache holds may have an end of its time. Until then it is served; afterwards it is as if it had
never been set. Looking at a cache changes nothing of that, and setting a value sets an end for it and for
nothing else. Removing a value tells whether there was one. Afterwards there is none, and what is under
other keys is the same as before.

## Main definitions

* `Cache.IsUsable`: a cache that can be reached and takes values for so many seconds.
* `Deployment.outcome_cached`: what a store finds in it.
* `Cache.entry`, `Cache.isOver`: what is held under a key until when, and whether that time is over.
* `Cache.fresh`: what is held and not over.
* `Cache.limitOf`: the end of a time that begins now.
* `Cache.leaves_entry_get`, `Cache.leaves_entry_put`: what is held under other keys stays.
* `Cache.outcome_put_entry`: what setting a value does to what is held.
* `Cache.outcome_delete`: what comes of removing a value.
* `Cache.answers_delete_of_ne`: the cache says the same of other keys.
-/

namespace FactIndex

open FactIndex.Effect

namespace Cache

/-! ## Caches that can be used -/

variable {c : Cache} {site : Site} {way : Way} {seconds : Float}

/-- The cache can be reached, and takes values for so many seconds. In memory there is nothing to be
asked for. -/
def IsUsable (c : Cache) (way : Way) (seconds : Float) : Prop :=
  ∀ address options, c.storage = .server address options →
    (∃ call, address.request way = .ok call) ∧ (∃ members, optionMembers options = .ok members) ∧
      ∃ milliseconds, millisecondsOf (.float seconds) = .ok milliseconds

theorem isConnected_of_isUsable (h : c.IsUsable way seconds) (site : Site) :
    (c.view way site).isConnected = true := by
  unfold view
  cases hstorage : c.storage with
  | memory => rfl
  | server address options =>
      obtain ⟨⟨call, hcall⟩, -⟩ := h address options hstorage
      simp [hcall, Except.toOption]

theorem exists_secondsOf (seconds : Float) : ∃ limit, secondsOf (.float seconds) = .ok limit := by
  unfold secondsOf
  split
  · exact ⟨_, rfl⟩
  · exact ⟨_, rfl⟩

end Cache

variable {σ : Type}

/-- What a store finds under a key of its cache. -/
theorem Deployment.outcome_cached (d : Deployment σ) {seconds : Float}
    (h : d.cache.IsUsable .waiting seconds) {key full : String}
    (hfull : d.cache.fullKey (.str key) = .ok full) (w : World σ) :
    ((d.cached? (.str key)).outcome w).1 =
      match d.cache.served (w.cache, w.host) full with
      | some content => (d.cache.readBack content).map some
      | none => .ok none := by
  have hget := Cache.get_eq (Cache.isConnected_of_isUsable h (w.cache, w.host)) hfull
  have hattempt : ((Effect.attempt (onCache (d.cache.get .waiting (.str key)) : Action σ Json)).outcome
      w).1 = .ok ((d.cache.get .waiting (.str key)).outcome (w.cache, w.host)).1 := rfl
  rw [hget] at hattempt
  unfold Deployment.cached?
  rw [outcome_bind_of_answer hattempt]
  cases d.cache.served (w.cache, w.host) full with
  | none => rfl
  | some content =>
      dsimp only
      rcases d.cache.readBack_cases content with ⟨value, hvalue⟩ | hnone
      · rw [hvalue]
        rfl
      · rw [hnone]
        rfl

end FactIndex

namespace FactIndex.Cache

open FactIndex.Effect FactIndex.KeyValue

variable {c : Cache} {site : Site} {way : Way}

/-! ## What is held -/

/-- What is held under a full key, and the end of its time. -/
def entry (c : Cache) (site : Site) (full : String) : Option (Json × Option Float) :=
  match c.storage with
  | .memory => (Table.get? site.1.memory full).map fun e => (e.value, e.expiry)
  | .server _ _ => (Table.get? site.2.server.texts full).map fun e => (.str e.value, e.goneAt)

/-- Whether a time is over. In memory it lasts until its end is past, on the server until it has come. -/
def isOver (c : Cache) (now : Float) (limit : Option Float) : Bool :=
  match c.storage, limit with
  | .memory, some t => t < now
  | .server _ _, some t => t ≤ now
  | _, none => false

/-- What is held under a full key and not over at the time of the clock. -/
def fresh (c : Cache) (site : Site) (full : String) : Option (Json × Option Float) :=
  (c.entry site full).filter fun e => !c.isOver site.2.network.now e.2

/-- The end of a time that begins at a time. -/
def limitOf (c : Cache) (now : Float) (ttl : Json) : Except Failure (Option Float) :=
  match c.storage with
  | .memory => (secondsOf ttl).map (·.map (now + ·))
  | .server _ _ => (millisecondsOf ttl).map (·.map fun n => now + Float.ofInt n / 1000)

theorem kept_eq (full : String) : c.kept site full = (c.entry site full).map (·.1) := by
  unfold kept entry
  cases c.storage <;> simp only [Option.map_map] <;> rfl

theorem fresh_of_memory (h : c.storage = .memory) (site : Site) (full : String) :
    c.fresh site full = ((Table.get? site.1.memory full).filter
      fun e => !e.hasExpired site.2.network.now).map fun e => (e.value, e.expiry) := by
  unfold fresh entry isOver
  simp only [h]
  cases Table.get? site.1.memory full with
  | none => rfl
  | some e =>
      rcases e with ⟨value, _ | t⟩
      · rfl
      · by_cases hover : t < site.2.network.now <;> simp [Entry.hasExpired, Option.filter, hover]

/-- What is served is what is not over. -/
theorem served_eq (full : String) : c.served site full = (c.fresh site full).map (·.1) := by
  cases hstorage : c.storage with
  | memory =>
      rw [fresh_of_memory hstorage, Option.map_map]
      unfold served
      simp only [hstorage]
      exact find_fst _ _ _
  | server address options =>
      unfold served fresh entry isOver Server.get
      simp only [hstorage]
      cases Table.get? site.2.server.texts full with
      | none => rfl
      | some e =>
          rcases e with ⟨value, _ | t⟩
          · rfl
          · by_cases hover : t ≤ site.2.network.now <;>
              simp [KeyValue.Entry.isGone, Option.filter, hover]

/-- In memory the cache says that there is what is not over. -/
theorem answers_of_memory (h : c.storage = .memory) (way : Way) (site : Site) (full : String) :
    (c.view way site).answers full = (c.fresh site full).isSome := by
  have hserved : c.served site full = (c.fresh site full).map (·.1) := c.served_eq full
  unfold served at hserved
  unfold view
  simp only [h] at hserved ⊢
  rw [hserved, Option.isSome_map]

/-- What is over stays over. -/
theorem isOver_of_le {now later : Float} {limit : Option Float} (hle : now ≤ later)
    (h : c.isOver now limit = true) : c.isOver later limit = true := by
  unfold isOver at h ⊢
  split at h
  · exact decide_eq_true (Decimal.lt_of_lt_of_le (of_decide_eq_true h) hle)
  · exact decide_eq_true (Decimal.le_of_le_of_le (of_decide_eq_true h) hle)
  · cases h

/-- Of what is held now, that is held later whose time is not over by then. -/
theorem fresh_of_le {later : Site} {full : String} (hentry : c.entry later full = c.entry site full)
    (hle : site.2.network.now ≤ later.2.network.now) :
    c.fresh later full = (c.fresh site full).filter fun e => !c.isOver later.2.network.now e.2 := by
  unfold fresh
  rw [hentry, Option.filter_filter]
  refine congrArg (Option.filter · _) (funext fun e => ?_)
  cases hover : c.isOver site.2.network.now e.2 with
  | true => simp [isOver_of_le hle hover]
  | false => simp

/-! ## Looking -/

/-- In memory only what is over is dropped. -/
theorem leaves_fresh_find (h : c.storage = .memory) (key : String) :
    Leaves c.fresh (Site.onMemory fun m now => m.find now key) := by
  intro site
  funext full
  rw [fresh_of_memory h, fresh_of_memory h]
  exact congrArg (Option.map _) (filter_get?_find site.1.memory site.2.network.now key full)

/-- On the server what is not over depends on the text under the key and on the time. -/
theorem leaves_fresh_onServer {α : Type} {address : Address} {options : Json} {x : Effect Site α}
    {full : String} (h : c.storage = .server address options)
    (hx : Leaves (fun site : Site => (Table.get? site.2.server.texts full, site.2.network.now)) x) :
    Leaves (fun site => c.fresh site full) x := by
  intro site
  have hsame := hx site
  simp only [Prod.mk.injEq] at hsame
  unfold fresh entry
  simp only [h, hsame]

theorem isQuiet_text_now (full : String) :
    Host.IsQuiet (fun h : Host => (Table.get? h.server.texts full, h.network.now)) := fun _ _ _ => rfl

theorem leaves_fresh_has (key : Json) : Leaves c.fresh (c.has way key) := by
  cases hstorage : c.storage with
  | memory =>
      unfold has
      simp only [hstorage]
      exact (Leaves.ofExcept _).bind fun full => (leaves_fresh_find hstorage full).map _
  | server address options =>
      exact fun site => funext fun full =>
        leaves_fresh_onServer hstorage (leaves_host_has (isQuiet_text_now full) key) site

theorem leaves_fresh_get (key : Json) : Leaves c.fresh (c.get way key) := by
  cases hstorage : c.storage with
  | memory =>
      unfold get
      simp only [hstorage]
      refine (Leaves.ofExcept _).bind fun full => (leaves_fresh_find hstorage full).bind fun r => ?_
      cases r with
      | none => exact Leaves.throw _
      | some value => exact Leaves.pure _
  | server address options =>
      exact fun site => funext fun full =>
        leaves_fresh_onServer hstorage (leaves_host_get (isQuiet_text_now full) key) site

/-! ## Other keys -/

section OtherKeys

variable {key : Json} {other : String}

/-- On the server what is held depends on the text under the key. -/
theorem leaves_entry_onServer {α : Type} {address : Address} {options : Json} {x : Effect Site α}
    (h : c.storage = .server address options)
    (hx : Leaves (fun site : Site => Table.get? site.2.server.texts other) x) :
    Leaves (fun site => c.entry site other) x := by
  intro site
  have hsame := hx site
  unfold entry
  simp only [h, hsame]

/-- Looking under a key drops nothing under another one. -/
theorem leaves_entry_get (hother : ∀ full, c.fullKey key = .ok full → full ≠ other) :
    Leaves (fun site => c.entry site other) (c.get way key) := by
  cases hstorage : c.storage with
  | memory =>
      have hfind : ∀ full, full ≠ other → Leaves (fun site => c.entry site other)
          (Site.onMemory fun m now => m.find now full) := by
        intro full hne site
        have hsame : Table.get? (site.1.memory.find site.2.network.now full).2 other =
            Table.get? site.1.memory other := by
          unfold Memory.find
          split
          · rfl
          · split
            · exact Table.get?_erase_of_ne _ hne
            · rfl
        unfold entry
        simp only [hstorage]
        exact congrArg (Option.map fun e : Entry => (e.value, e.expiry)) hsame
      unfold get
      simp only [hstorage]
      refine Leaves.ofExcept_bind fun full hfull => (hfind full (hother full hfull)).bind fun r => ?_
      cases r with
      | none => exact Leaves.throw _
      | some value => exact Leaves.pure _
  | server address options =>
      have hview : Host.IsQuiet fun h : Host => Table.get? h.server.texts other := fun _ _ _ => rfl
      exact leaves_entry_onServer hstorage (leaves_host_get hview key)

/-- Setting a value leaves what is held under other keys. -/
theorem leaves_entry_put {value ttl : Json} (hother : ∀ full, c.fullKey key = .ok full → full ≠ other) :
    Leaves (fun site => c.entry site other) (c.put way key value ttl) := by
  unfold put
  cases hstorage : c.storage with
  | memory =>
      dsimp only
      split
      · exact Leaves.throw _
      · refine (Leaves.ofExcept _).bind fun seconds => Leaves.ofExcept_bind fun full hfull site => ?_
        unfold entry
        simp only [hstorage]
        exact congrArg (Option.map fun e : Entry => (e.value, e.expiry))
          (Table.get?_put_of_ne site.1.memory _ (hother full hfull))
  | server address options =>
      have hview : Host.IsQuiet fun h : Host => Table.get? h.server.texts other := fun _ _ _ => rfl
      refine leaves_entry_onServer hstorage (leaves_host_onServer hview ?_)
      split
      · exact Leaves.throw _
      · exact Leaves.ofExcept_bind fun full hfull => (Leaves.ofExcept _).bind fun milliseconds =>
          (Leaves.ofExcept _).bind fun more h => Table.get?_put_of_ne h.server.texts _ (hother full hfull)

/-- Setting a value leaves what is fresh under other keys. -/
theorem leaves_fresh_put {value ttl : Json} (hother : ∀ full, c.fullKey key = .ok full → full ≠ other) :
    Leaves (fun site => c.fresh site other) (c.put way key value ttl) := by
  intro site
  have hnow : ((c.put way key value ttl).outcome site).2.2.network.now = site.2.network.now :=
    leaves_host_put (show Host.IsQuiet fun h => h.network.now from fun _ _ _ => rfl) (fun _ _ => rfl)
      key value ttl site
  have hentry : c.entry ((c.put way key value ttl).outcome site).2 other = c.entry site other :=
    leaves_entry_put hother site
  unfold fresh
  dsimp only
  rw [hnow, hentry]

end OtherKeys

/-- Removing a value leaves what is fresh under other keys. -/
theorem leaves_fresh_delete {key : Json} {other : String}
    (hother : ∀ full, c.fullKey key = .ok full → full ≠ other) :
    Leaves (fun site => c.fresh site other) (c.delete way key) := by
  cases hstorage : c.storage with
  | memory =>
      have hremove : ∀ full, full ≠ other → Leaves (fun site => c.fresh site other)
          (Site.onMemory fun m now => m.remove now full) := by
        intro full hne site
        have hfind := congrFun (leaves_fresh_find hstorage full site) other
        rw [fresh_of_memory hstorage, fresh_of_memory hstorage] at hfind
        dsimp only
        rw [fresh_of_memory hstorage, fresh_of_memory hstorage]
        refine Eq.trans (congrArg (fun e => Option.map _ (Option.filter _ e)) ?_) hfind
        show Table.get? (site.1.memory.remove site.2.network.now full).2 other =
          Table.get? (site.1.memory.find site.2.network.now full).2 other
        unfold Memory.remove
        rcases site.1.memory.find site.2.network.now full with ⟨_ | _, m⟩
        · rfl
        · exact Table.get?_erase_of_ne m hne
      unfold delete
      simp only [hstorage]
      refine Leaves.ofExcept_bind fun full hfull => (hremove full (hother full hfull)).bind fun found => ?_
      split
      · exact Leaves.throw _
      · exact Leaves.pure _
  | server address options =>
      refine leaves_fresh_onServer hstorage (leaves_host_delete (isQuiet_text_now other) ?_)
      exact fun full hfull h =>
        congrArg (Prod.mk · _) (Table.get?_erase_of_ne h.server.texts (hother full hfull))

/-! ## Reaching the cache -/

/-- The server can be reached after a command if it could before. -/
theorem leaves_isConnected_onServer {α : Type} {address : Address} {options : Json}
    (h : c.storage = .server address options) (x : Effect Host α) :
    Leaves (fun site => (c.view way site).isConnected) (Site.onServer address way x) := by
  unfold view
  simp only [h]
  exact Leaves.bind (fun site => congrArg (·.2.2) (leaves_ensure address way (site.1.links, site.2)))
    fun _ _ => rfl

theorem leaves_isConnected_put (key value ttl : Json) :
    Leaves (fun site => (c.view way site).isConnected) (c.put way key value ttl) := by
  cases hstorage : c.storage with
  | memory =>
      unfold view
      simp only [hstorage]
      exact fun _ => rfl
  | server address options =>
      unfold put
      rw [hstorage]
      exact leaves_isConnected_onServer hstorage _

/-! ## Setting -/

/-- A value that is set is held until the end of its time, and what is held under other keys stays. -/
theorem outcome_put_limit (hlink : (c.view way site).isConnected = true)
    (hoptions : ∀ address options, c.storage = .server address options →
      ∃ members, optionMembers options = .ok members) (key : String) {value ttl : Json} (hvalue : value ≠ .null)
    {limit : Option Float} (hlimit : c.limitOf site.2.network.now ttl = .ok limit) : ∃ full after,
      (c.put way (.str key) value ttl).outcome site = (.ok (), after) ∧
      c.fullKey (.str key) = .ok full ∧
      after.2.network.now = site.2.network.now ∧
      c.entry after full = some (c.form value, limit) ∧
      ∀ other, full ≠ other → c.entry after other = c.entry site other := by
  obtain ⟨full, hfull⟩ := c.exists_fullKey key
  unfold limitOf at hlimit
  unfold put entry form
  cases hstorage : c.storage with
  | memory =>
      simp only [hstorage] at hlimit ⊢
      obtain ⟨seconds, hseconds, rfl⟩ := exists_of_map_ok hlimit
      rw [if_neg hvalue, hseconds, hfull]
      refine ⟨full, _, rfl, rfl, rfl, ?_, fun other hother => ?_⟩
      · exact congrArg (Option.map fun e : Entry => (e.value, e.expiry)) (Table.get?_put_self _ _ _)
      · exact congrArg (Option.map fun e : Entry => (e.value, e.expiry))
          (Table.get?_put_of_ne _ _ hother)
  | server address options =>
      obtain ⟨members, hmembers⟩ := hoptions address options hstorage
      obtain ⟨links, host, hserver, hnow, houtcome⟩ := outcome_onServer (do
        if value = .null then throw .badType
        let full ← .ofExcept (c.fullKey (.str key))
        let milliseconds ← .ofExcept (millisecondsOf ttl)
        Host.set full (Json.Style.stored.print value) milliseconds
          (← .ofExcept (optionMembers options))) hstorage hlink
      simp only [hstorage] at hlimit ⊢
      obtain ⟨milliseconds, hmilliseconds, rfl⟩ := exists_of_map_ok hlimit
      rw [if_neg hvalue, hfull, hmilliseconds, hmembers] at houtcome
      rw [if_neg hvalue, hmilliseconds, hfull, hmembers, ← hnow]
      refine ⟨full, _, houtcome, rfl, rfl, ?_, fun other hother => ?_⟩
      · exact congrArg (Option.map fun e : KeyValue.Entry => (Json.str e.value, e.goneAt))
          (Table.get?_put_self host.server.texts full _)
      · rw [← hserver]
        exact congrArg (Option.map fun e : KeyValue.Entry => (Json.str e.value, e.goneAt))
          (Table.get?_put_of_ne host.server.texts _ hother)

/-- A cache that can be used takes values for so many seconds. -/
theorem IsUsable.exists_limitOf {seconds : Float} (h : c.IsUsable way seconds) (now : Float) :
    ∃ limit, c.limitOf now (.float seconds) = .ok limit := by
  unfold limitOf
  cases hstorage : c.storage with
  | memory =>
      obtain ⟨limit, hlimit⟩ := exists_secondsOf seconds
      exact ⟨limit.map (now + ·), by rw [hlimit]; rfl⟩
  | server address options =>
      obtain ⟨-, -, milliseconds, hmilliseconds⟩ := h address options hstorage
      exact ⟨milliseconds.map fun n => now + Float.ofInt n / 1000, by rw [hmilliseconds]; rfl⟩

/-- What a usable cache is given for so many seconds it holds so long. -/
theorem outcome_put_entry {seconds : Float} (h : c.IsUsable way seconds) (key : String) {value : Json}
    (hvalue : value ≠ .null) (site : Site) : ∃ full limit after,
      (c.put way (.str key) value (.float seconds)).outcome site = (.ok (), after) ∧
      c.fullKey (.str key) = .ok full ∧
      c.limitOf site.2.network.now (.float seconds) = .ok limit ∧
      after.2.network.now = site.2.network.now ∧
      c.entry after full = some (c.form value, limit) ∧
      ∀ other, full ≠ other → c.entry after other = c.entry site other := by
  obtain ⟨limit, hlimit⟩ := h.exists_limitOf site.2.network.now
  obtain ⟨full, after, hput, hfull, hheld⟩ := outcome_put_limit (isConnected_of_isUsable h site)
    (fun address options hstorage => (h address options hstorage).2.1) key hvalue hlimit
  exact ⟨full, limit, after, hput, hfull, hlimit, hheld⟩

end FactIndex.Cache

namespace FactIndex

open FactIndex.Effect FactIndex.KeyValue

namespace KeyValue.Server

/-! ## Removing -/

theorem has_remove_self (s : Server) (now : Float) (key : String) : (s.remove key).has now key = false := by
  simp [has, get, remove, Table.has, Table.get?_erase_self]

theorem has_remove_of_ne (s : Server) (now : Float) {key other : String} (h : key ≠ other) :
    (s.remove key).has now other = s.has now other := by
  simp [has, get, remove, Table.has, Table.get?_erase_of_ne _ h]

end KeyValue.Server

namespace Cache

namespace Memory

theorem remove_fst (m : Memory) (now : Float) (key : String) :
    (m.remove now key).1 = (m.find now key).1.isSome := by
  unfold remove
  rcases m.find now key with ⟨_ | _, _⟩ <;> rfl

theorem find_remove (m : Memory) (now : Float) (key : String) :
    ((m.remove now key).2.find now key).1 = none := by
  have hgone : (Table.get? (m.remove now key).2 key).filter (fun e => !e.hasExpired now) = none := by
    have hfind := filter_get?_find m now key key
    unfold remove
    rcases hfound : m.find now key with ⟨_ | value, rest⟩
    · rw [hfound] at hfind
      have hnone := find_fst m now key
      rw [hfound] at hnone
      exact hfind.trans (Option.map_eq_none_iff.mp hnone.symm)
    · exact congrArg (Option.filter _) (Table.get?_erase_self rest key)
  rw [find_fst, hgone]
  rfl

end Memory

variable {c : Cache} {site after : Site} {way : Way} {key : Json} {full other : String}

/-- A cache that says what it removed, be it that there was nothing, can be reached. -/
theorem isConnected_of_delete (h : ((c.delete way key).outcome site).1 = .ok () ∨
    ∃ text, ((c.delete way key).outcome site).1 = .error (.notFound text)) :
    (c.view way site).isConnected = true := by
  by_contra hlost
  cases hstorage : c.storage with
  | memory =>
      unfold view at hlost
      simp [hstorage] at hlost
  | server address options =>
      obtain ⟨e, he, hserver⟩ := exists_error_of_onServer hstorage (Bool.not_eq_true _ ▸ hlost)
      unfold delete at h
      simp only [hstorage] at h
      rw [fst_bind_of_error (hserver _)] at h
      rcases h with h | ⟨text, h⟩
      · cases h
      · exact he text (Except.error.inj h)

/-- Removing tells whether there was something under the key. Then there is nothing. -/
theorem outcome_delete (hlink : (c.view way site).isConnected = true) (hfull : c.fullKey key = .ok full) :
    ∃ after, (c.delete way key).outcome site =
        (if (c.view way site).answers full then .ok () else .error (missing key), after) ∧
      (c.view way after).isConnected = true ∧ (c.view way after).answers full = false := by
  have hend : ∀ (found : Bool) (after : Site),
      (if !found then throw (missing key) else pure PUnit.unit : Effect Site PUnit).outcome after =
        (if found then .ok () else .error (missing key), after) := by
    intro found after
    cases found <;> rfl
  unfold delete view
  cases hstorage : c.storage with
  | memory =>
      have hremove : (Site.onMemory fun m now => m.remove now full).outcome site =
          (.ok (site.1.memory.remove site.2.network.now full).1,
            { site.1 with memory := (site.1.memory.remove site.2.network.now full).2 }, site.2) := rfl
      dsimp only
      rw [hfull, show (Effect.ofExcept (.ok full) : Effect Site String) = pure full from rfl, pure_bind,
        outcome_bind_of_ok hremove, hend, Memory.remove_fst]
      exact ⟨_, rfl, rfl, congrArg Option.isSome (Memory.find_remove _ _ _)⟩
  | server address options =>
      obtain ⟨links, host, hserver, hnow, houtcome⟩ := outcome_onServer (do
        let n ← Host.delete [← .ofExcept (c.fullKey key)]
        return decide (n ≠ 0)) hstorage hlink
      dsimp only
      have hremove : ((do
          let n ← Host.delete [← .ofExcept (c.fullKey key)]
          return decide (n ≠ 0)) : Effect Host Bool).outcome host = (.ok (site.2.server.has
            site.2.network.now full), ⟨host.network.record (command "delete" [.str full]),
              site.2.server.remove full⟩) := by
        rw [hfull, ← hserver, ← hnow]
        refine Prod.ext (congrArg Except.ok ?_) rfl
        show decide ((if host.server.has host.network.now full then 0 + 1 else 0) ≠ 0) = _
        cases host.server.has host.network.now full <;> rfl
      rw [hremove] at houtcome
      have hopen := (isConnected_of_onServer hstorage houtcome).2
      unfold view at hopen
      simp only [hstorage] at hopen
      rw [outcome_bind_of_ok houtcome, hend]
      refine ⟨_, rfl, ?_, Server.has_remove_self _ _ _⟩
      exact hopen

/-- What is said of other keys stays. -/
theorem answers_delete_of_ne (way : Way) (hfull : c.fullKey key = .ok full) (hne : full ≠ other) :
    Leaves (fun site => (c.view way site).answers other) (c.delete way key) := by
  cases hstorage : c.storage with
  | memory =>
      simp only [answers_of_memory hstorage]
      have hkept : Leaves (fun site => c.fresh site other) (c.delete way key) :=
        leaves_fresh_delete fun full' hfull' => by
          cases hfull.symm.trans hfull'
          exact hne
      exact fun site => congrArg Option.isSome (hkept site)
  | server address options =>
      have hview : Host.IsQuiet (fun h : Host => h.server.has h.network.now other) := fun _ _ _ => rfl
      have hkept : Leaves (fun site : Site => site.2.server.has site.2.network.now other)
          (c.delete way key) := leaves_host_delete hview fun full' hfull' h => by
        cases hfull.symm.trans hfull'
        exact h.server.has_remove_of_ne _ hne
      unfold view
      simp only [hstorage]
      exact hkept

end Cache

end FactIndex
