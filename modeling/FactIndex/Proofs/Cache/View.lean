import FactIndex.Proofs.Cache.Content
import FactIndex.Proofs.Json.Printed

/-!
# What a cache shows

Nothing is seen of a cache but what it serves and what it says is there, and whether it can be reached.
Looking at it changes nothing of that, although expired values are dropped and the link to the server is
opened on the way.

## Main definitions

* `Cache.View`, `Cache.view`: what is seen of a cache.
* `Cache.leaves_has`, `Cache.leaves_get`: looking leaves it as it is.
* `Cache.has_eq`, `Cache.get_eq`: what is answered depends on nothing else.
-/

namespace FactIndex.Cache

open FactIndex.Effect FactIndex.KeyValue

/-- What is seen of a cache at a time. -/
structure View where
  /-- What is served under a full key. -/
  served : String → Option Json
  /-- Whether the cache says that there is something under a full key. -/
  answers : String → Bool
  /-- Whether the link to the server is open or can be opened. -/
  isConnected : Bool

/-- What is seen of a cache. On the server, tables and sets count as being there as well. -/
def view (c : Cache) (way : Way) (site : Site) : View where
  served := c.served site
  answers full :=
    match c.storage with
    | .memory => (Memory.find site.1.memory site.2.network.now full).1.isSome
    | .server _ _ => site.2.server.has site.2.network.now full
  isConnected :=
    match c.storage with
    | .memory => true
    | .server address _ => site.1.links.isOpen way || (address.request way).toOption.isSome

variable {c : Cache} {site : Site} {way : Way} {full : String}

/-- A served value is there. -/
theorem served_eq_none (h : (c.view way site).answers full = false) : c.served site full = none := by
  unfold view at h
  unfold served
  cases hstorage : c.storage with
  | memory =>
      simp only [hstorage] at h ⊢
      exact Option.isNone_iff_eq_none.mp (by simpa using h)
  | server address options =>
      simp only [hstorage, Server.has, Bool.or_eq_false_iff] at h ⊢
      simpa using h.1.1

/-! ## Looking -/

/-- What is found is there and has not expired. -/
theorem find_fst (m : Memory) (now : Float) (key : String) : (m.find now key).1 =
    ((Table.get? m key).filter fun e => !e.hasExpired now).map (·.value) := by
  unfold Memory.find
  cases Table.get? m key with
  | none => rfl
  | some e => cases h : e.hasExpired now <;> simp [Option.filter, h]

/-- Nothing is dropped but what has expired. -/
theorem filter_get?_find (m : Memory) (now : Float) (key other : String) :
    ((Table.get? (m.find now key).2 other).filter fun e => !e.hasExpired now) =
      (Table.get? m other).filter fun e => !e.hasExpired now := by
  unfold Memory.find
  cases hkey : Table.get? m key with
  | none => rfl
  | some e =>
      cases hexpired : e.hasExpired now with
      | false => simp only [hexpired, Bool.false_eq_true, if_false]
      | true =>
          simp only [hexpired, if_true]
          by_cases hsame : key = other
          · subst hsame
            rw [Table.get?_erase_self, hkey]
            simp [Option.filter, hexpired]
          · rw [Table.get?_erase_of_ne _ hsame]

/-- A cache in memory that holds one value serves that one only. -/
theorem served_singleton {key : String} {e : Entry} (hmemory : site.1.memory = [(key, e)])
    (hfresh : e.hasExpired site.2.network.now = false) (full : String) :
    ({} : Cache).served site full = if key = full then some e.value else none := by
  show (site.1.memory.find site.2.network.now full).1 = _
  rw [hmemory, find_fst, Table.get?_cons]
  split
  · rw [Option.filter_some, hfresh]
    rfl
  · rfl

theorem leaves_onMemory_find (h : c.storage = .memory) (key : String) :
    Leaves (c.view way) (Site.onMemory fun m now => m.find now key) := by
  intro site
  have hsame : ∀ other, (Memory.find (site.1.memory.find site.2.network.now key).2
      site.2.network.now other).1 = (site.1.memory.find site.2.network.now other).1 := by
    intro other
    rw [find_fst, filter_get?_find, find_fst]
  unfold view served
  simp only [h]
  congr 1
  · funext other
    exact hsame other
  · funext other
    exact congrArg Option.isSome (hsame other)

theorem leaves_ensure (address : Address) (way : Way) : Leaves (fun s : Links × Host =>
    (s.2.server, s.2.network.now, s.1.isOpen way || (address.request way).toOption.isSome))
      (Links.ensure address way) := by
  intro s
  unfold Links.ensure
  rw [outcome_make]
  dsimp only
  cases hopen : s.1.isOpen way with
  | true => simp [hopen]
  | false =>
      cases hrequest : address.request way with
      | error e => simp [hopen]
      | ok call => simp [Network.record, Except.toOption]

/-- A command that changes neither the server nor the time changes nothing that is seen. -/
theorem leaves_onServer {α : Type} {address : Address} {options : Json} {x : Effect Host α}
    (h : c.storage = .server address options)
    (hx : Leaves (fun host : Host => (host.server, host.network.now)) x) :
    Leaves (c.view way) (Site.onServer address way x) := by
  have hview : ∀ {site site' : Site}, (site'.2.server, site'.2.network.now,
      site'.1.links.isOpen way || (address.request way).toOption.isSome) = (site.2.server,
        site.2.network.now, site.1.links.isOpen way || (address.request way).toOption.isSome) →
      c.view way site' = c.view way site := by
    intro site site' heq
    simp only [Prod.mk.injEq] at heq
    unfold view served
    simp only [h, heq]
  have hlink : Leaves (c.view way) (Effect.onPart (fun s : Site => (s.1.links, s.2))
      (fun t s => ({ s.1 with links := t.1 }, t.2)) (Links.ensure address way)) :=
    fun site => hview (leaves_ensure address way (site.1.links, site.2))
  refine hlink.bind fun _ site => hview ?_
  have hsame := hx site.2
  simp only [Prod.mk.injEq] at hsame
  simp only [outcome_onPart, hsame]

/-- A command that only asks changes neither the server nor the time. -/
theorem leaves_send {α : Type} (call : Call) (act : Float → Server → α) :
    Leaves (fun host : Host => (host.server, host.network.now))
      (Host.send call fun now s => (act now s, s)) := fun _ => rfl

/-! ## Reaching the server -/

/-- Once the link is open the command is sent to the server as it was. -/
theorem outcome_onServer {α : Type} {address : Address} {options : Json} (x : Effect Host α)
    (h : c.storage = .server address options) (hlink : (c.view way site).isConnected = true) :
    ∃ links host, host.server = site.2.server ∧ host.network.now = site.2.network.now ∧
      (Site.onServer address way x).outcome site =
        ((x.outcome host).1, { site.1 with links }, (x.outcome host).2) := by
  unfold view at hlink
  simp only [h] at hlink
  have hensure : ∃ links host, (Effect.onPart (fun s : Site => (s.1.links, s.2))
      (fun t s => ({ s.1 with links := t.1 }, t.2)) (Links.ensure address way)).outcome site =
        (.ok (), { site.1 with links }, host) ∧ host.server = site.2.server ∧
          host.network.now = site.2.network.now := by
    unfold Links.ensure
    rw [outcome_onPart, outcome_make]
    dsimp only
    cases hopen : site.1.links.isOpen way with
    | true => exact ⟨_, _, rfl, rfl, rfl⟩
    | false =>
        cases hrequest : address.request way with
        | error e => simp [hopen, hrequest, Except.toOption] at hlink
        | ok call => exact ⟨_, _, rfl, rfl, rfl⟩
  obtain ⟨links, host, houtcome, hserver, hnow⟩ := hensure
  refine ⟨links, host, hserver, hnow, ?_⟩
  unfold Site.onServer
  rw [outcome_bind_of_ok houtcome, outcome_onPart]

/-- The link is open after a command that has been answered. -/
theorem isConnected_of_onServer {α : Type} {address : Address} {options : Json} {x : Effect Host α}
    {a : α} {after : Site} (h : c.storage = .server address options)
    (houtcome : (Site.onServer address way x).outcome site = (.ok a, after)) :
    (c.view way site).isConnected = true ∧ (c.view way after).isConnected = true := by
  obtain ⟨_, linked, hensure, hx⟩ := exists_of_bind_ok houtcome
  have hopen : linked.1.links.isOpen way = true ∧
      (site.1.links.isOpen way || (address.request way).toOption.isSome) = true := by
    unfold Links.ensure at hensure
    rw [outcome_onPart, outcome_make] at hensure
    dsimp only at hensure
    cases hopen : site.1.links.isOpen way with
    | true =>
        rw [hopen] at hensure
        cases hensure
        exact ⟨hopen, rfl⟩
    | false =>
        cases hrequest : address.request way with
        | ok call =>
            rw [hopen, hrequest] at hensure
            cases hensure
            cases way <;> exact ⟨rfl, rfl⟩
        | error e =>
            rw [hopen, hrequest] at hensure
            cases hensure
  have hafter : after.1 = linked.1 := by
    rw [outcome_onPart] at hx
    exact (congrArg (·.2.1) hx).symm
  unfold view
  simp only [h, hafter]
  exact ⟨hopen.2, by rw [hopen.1, Bool.true_or]⟩

theorem isConnected_of_has {key : Json} {b : Bool} {after : Site}
    (h : (c.has way key).outcome site = (.ok b, after)) : (c.view way site).isConnected = true := by
  unfold has at h
  cases hstorage : c.storage with
  | memory =>
      unfold view
      simp only [hstorage]
  | server address options =>
      rw [hstorage] at h
      exact (isConnected_of_onServer hstorage h).1

/-- A link that cannot be opened is no missing value. -/
theorem request_ne_notFound (address : Address) (way : Way) (text : String) :
    address.request way ≠ .error (.notFound text) := by
  unfold Address.request
  rcases hfixed : address.fixedMembers with e | fixed
  · intro h
    cases h
    unfold Address.fixedMembers at hfixed
    split at hfixed
    · cases hfixed
    · split at hfixed <;> cases hfixed
  · rcases hmore : address.optionMembers with e | more
    · intro h
      cases h
      unfold Address.optionMembers at hmore
      split at hmore
      · cases hmore
      · split at hmore <;> cases hmore
    · show (if _ then (.error .badType : Except Failure Call) else _) ≠ _
      split <;> rintro ⟨⟩

/-- Without a link no command is sent, and that is no missing value. -/
theorem exists_error_of_onServer {address : Address} {options : Json}
    (h : c.storage = .server address options) (hlost : (c.view way site).isConnected = false) :
    ∃ e, (∀ text, e ≠ .notFound text) ∧ ∀ {α : Type} (x : Effect Host α),
      ((Site.onServer address way x).outcome site).1 = .error e := by
  unfold view at hlost
  simp only [h, Bool.or_eq_false_iff] at hlost
  obtain ⟨hclosed, hrefused⟩ := hlost
  cases hrequest : address.request way with
  | ok call => simp [hrequest, Except.toOption] at hrefused
  | error e =>
      have hensure : (Links.ensure address way).outcome (site.1.links, site.2) =
          (.error e, site.1.links, site.2) := by
        unfold Links.ensure
        rw [outcome_make]
        simp only [hclosed, Bool.false_eq_true, if_false, hrequest]
      refine ⟨e, fun text heq => request_ne_notFound address way text (heq ▸ hrequest), fun x => ?_⟩
      unfold Site.onServer
      rw [outcome_bind, outcome_onPart, hensure]

/-- A cache that answers, be it that there is nothing, can be reached. -/
theorem isConnected_of_get {key : Json}
    (h : (∃ value, ((c.get way key).outcome site).1 = .ok value) ∨
      ∃ text, ((c.get way key).outcome site).1 = .error (.notFound text)) :
    (c.view way site).isConnected = true := by
  by_contra hlost
  cases hstorage : c.storage with
  | memory =>
      unfold view at hlost
      simp [hstorage] at hlost
  | server address options =>
      obtain ⟨e, he, hserver⟩ := exists_error_of_onServer hstorage (Bool.not_eq_true _ ▸ hlost)
      unfold get at h
      simp only [hstorage] at h
      rw [fst_bind_of_error (hserver _)] at h
      rcases h with ⟨value, h⟩ | ⟨text, h⟩
      · cases h
      · exact he text (Except.error.inj h)

theorem isConnected_of_put {key value ttl : Json} {after : Site}
    (h : (c.put way key value ttl).outcome site = (.ok (), after)) :
    (c.view way after).isConnected = true := by
  unfold put at h
  cases hstorage : c.storage with
  | memory =>
      unfold view
      simp only [hstorage]
  | server address options =>
      rw [hstorage] at h
      exact (isConnected_of_onServer hstorage h).2

/-- Setting a value leaves the tables on the server alone. -/
theorem leaves_put (c : Cache) (way : Way) (key value ttl : Json) :
    Leaves (fun site : Site => site.2.server.tables) (c.put way key value ttl) := by
  unfold put
  cases hstorage : c.storage with
  | memory =>
      dsimp only
      split
      · exact Leaves.throw _
      · exact (Leaves.ofExcept _).bind fun _ => (Leaves.ofExcept _).bind fun _ _ => rfl
  | server address options =>
      have hlink : Leaves (fun site : Site => site.2.server.tables)
          (Effect.onPart (fun s : Site => (s.1.links, s.2))
            (fun t s => ({ s.1 with links := t.1 }, t.2)) (Links.ensure address way)) := fun site =>
        congrArg (·.1.tables) (leaves_ensure address way (site.1.links, site.2))
      have hset : Leaves (fun host : Host => host.server.tables) (do
          if value = .null then throw .badType
          let full ← .ofExcept (c.fullKey key)
          let milliseconds ← .ofExcept (millisecondsOf ttl)
          Host.set full (Json.Style.stored.print value) milliseconds
            (← .ofExcept (optionMembers options))) := by
        split
        · exact Leaves.throw _
        · exact (Leaves.ofExcept _).bind fun _ => (Leaves.ofExcept _).bind fun _ =>
            (Leaves.ofExcept _).bind fun _ _ => rfl
      exact hlink.bind fun _ site => hset site.2

/-! ## Answers -/

/-- Texts are keys of every cache. -/
theorem exists_fullKey (c : Cache) (key : String) : ∃ full, c.fullKey (.str key) = .ok full := by
  unfold fullKey
  cases c.scope with
  | none => exact ⟨key, rfl⟩
  | some scope =>
      dsimp only
      split
      · exact ⟨key, rfl⟩
      · exact ⟨_, rfl⟩

/-- What is read of the form in which a value is kept. -/
def readBack (c : Cache) (content : Json) : Except Failure Json :=
  match c.storage, content with
  | .memory, value => .ok value
  | .server _ _, .str text =>
    match Json.parse? Json.argumentDepth text with
    | some value => .ok value
    | none => .error .notJson
  | .server _ _, _ => .error .notJson

theorem leaves_has (c : Cache) (way : Way) (key : Json) : Leaves (c.view way) (c.has way key) := by
  unfold has
  cases hstorage : c.storage with
  | memory =>
      exact (Leaves.ofExcept _).bind fun full => (leaves_onMemory_find hstorage full).map _
  | server address options =>
      exact leaves_onServer hstorage ((Leaves.ofExcept _).bind fun full => leaves_send _ _)

theorem leaves_get (c : Cache) (way : Way) (key : Json) : Leaves (c.view way) (c.get way key) := by
  unfold get
  cases hstorage : c.storage with
  | memory =>
      refine (Leaves.ofExcept _).bind fun full => (leaves_onMemory_find hstorage full).bind fun r => ?_
      cases r with
      | none => exact Leaves.throw _
      | some value => exact Leaves.pure _
  | server address options =>
      have hask : Leaves (c.view way) (Site.onServer address way do
          Host.get (← .ofExcept (c.fullKey key))) :=
        leaves_onServer hstorage ((Leaves.ofExcept _).bind fun full => leaves_send _ _)
      refine hask.bind fun r => ?_
      cases r with
      | none => exact Leaves.throw _
      | some text =>
          dsimp only
          split
          · exact Leaves.pure _
          · exact Leaves.throw _

theorem readBack_cases (c : Cache) (content : Json) :
    (∃ value, c.readBack content = .ok value) ∨ c.readBack content = .error .notJson := by
  unfold readBack
  split
  · exact .inl ⟨_, rfl⟩
  · split
    · exact .inl ⟨_, rfl⟩
    · exact .inr rfl
  · exact .inr rfl

/-- A value is read back from the form in which it is kept. On the server that is a text. -/
theorem readBack_form {value : Json}
    (h : c.storage ≠ .memory → Json.IsReadable .stored Json.argumentDepth value) :
    c.readBack (c.form value) = .ok value := by
  unfold readBack form
  cases hstorage : c.storage with
  | memory => rfl
  | server address options =>
      have hread : Json.parse? Json.argumentDepth (Json.Style.stored.print value) = some value :=
        Json.parse?_print Json.Style.isPlain_stored (h (by simp [hstorage]))
      dsimp only
      rw [hread]

/-- Asking whether there is something under a key. -/
theorem has_eq {key : Json} (hlink : (c.view way site).isConnected = true)
    (hfull : c.fullKey key = .ok full) :
    ((c.has way key).outcome site).1 = .ok ((c.view way site).answers full) := by
  unfold has view
  cases hstorage : c.storage with
  | memory =>
      dsimp only
      rw [hfull]
      rfl
  | server address options =>
      dsimp only
      obtain ⟨links, host, hserver, hnow, houtcome⟩ := outcome_onServer (do
        Host.has (← .ofExcept (c.fullKey key))) hstorage hlink
      rw [congrArg Prod.fst houtcome, hfull, ← hserver, ← hnow]
      rfl

/-- Asking for the value under a key. -/
theorem get_eq {key : Json} (hlink : (c.view way site).isConnected = true)
    (hfull : c.fullKey key = .ok full) :
    ((c.get way key).outcome site).1 =
      match c.served site full with
      | some content => c.readBack content
      | none => .error (missing key) := by
  unfold get served readBack
  cases hstorage : c.storage with
  | memory =>
      dsimp only
      rw [hfull]
      have hfind : ((Site.onMemory fun m now => m.find now full).outcome site).1 =
          .ok (site.1.memory.find site.2.network.now full).1 := rfl
      rw [show (Effect.ofExcept (.ok full) : Effect Site String) = pure full from rfl, pure_bind,
        outcome_bind_of_answer hfind]
      cases (site.1.memory.find site.2.network.now full).1 <;> rfl
  | server address options =>
      dsimp only
      obtain ⟨links, host, hserver, hnow, houtcome⟩ := outcome_onServer (do
        Host.get (← .ofExcept (c.fullKey key))) hstorage hlink
      have hasked : ((do Host.get (← .ofExcept (c.fullKey key)) : Effect Host _).outcome host).1 =
          .ok (site.2.server.get site.2.network.now full) := by
        rw [hfull, ← hserver, ← hnow]
        rfl
      rw [outcome_bind_of_answer ((congrArg Prod.fst houtcome).trans hasked)]
      cases site.2.server.get site.2.network.now full with
      | none => rfl
      | some text =>
          dsimp only [Option.map_some]
          cases Json.parse? Json.argumentDepth text <;> rfl

end FactIndex.Cache
