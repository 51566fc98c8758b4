import FactIndex.Cache.Basic
import FactIndex.Proofs.Effect

/-!
# What a cache holds

A cache keeps values in memory or, as texts, on the key-value server. Either way a look-up adds nothing
to what is kept, and setting a value changes what is kept under one key and nothing else. To the server it
sends commands, and it sets texts there: what shows neither of them is the same after every operation.

## Main definitions

* `Cache.form`: the form in which a value is kept.
* `Cache.kept`, `Cache.served`: what is kept under a key, and what is still served at the time.
* `Cache.kept_get`, `Cache.meets_put`: what looking up and setting do to it.
* `KeyValue.Host.IsQuiet`: a view of the host that does not show the commands.
* `Cache.leaves_host_has`, `Cache.leaves_host_get`, `Cache.leaves_host_put`, `Cache.leaves_host_delete`:
  such a view is left alone.
-/

namespace FactIndex.Cache

open FactIndex.Effect FactIndex.KeyValue

variable {c : Cache} {site : Site}

/-! ## Contents -/

/-- The form in which a value is kept: in memory as it is, on the server as a text. -/
def form (c : Cache) (value : Json) : Json :=
  match c.storage with
  | .memory => value
  | .server _ _ => .str (Json.Style.stored.print value)

/-- What is kept under a full key, whether its time is over or not. -/
def kept (c : Cache) (site : Site) (full : String) : Option Json :=
  match c.storage with
  | .memory => (Table.get? site.1.memory full).map (·.value)
  | .server _ _ => (Table.get? site.2.server.texts full).map fun e => .str e.value

/-- What is kept under a full key and has not expired at the time of the clock. -/
def served (c : Cache) (site : Site) (full : String) : Option Json :=
  match c.storage with
  | .memory => (Memory.find site.1.memory site.2.network.now full).1
  | .server _ _ => (site.2.server.get site.2.network.now full).map .str

theorem kept_of_served {full : String} {value : Json} (h : c.served site full = some value) :
    c.kept site full = some value := by
  unfold served at h
  unfold kept
  split at h
  · unfold Memory.find at h
    split at h
    · simp at h
    · rename_i e hget
      rw [hget]
      split at h
      · simp at h
      · exact h
  · unfold Server.get at h
    split at h
    · rename_i e hget
      rw [hget]
      split at h
      · simp at h
      · exact h
    · simp at h

/-- A full key stands for one text. -/
theorem fullKey_inj {a b full : String} (ha : c.fullKey (.str a) = .ok full)
    (hb : c.fullKey (.str b) = .ok full) : a = b := by
  unfold fullKey at ha hb
  cases hscope : c.scope with
  | none =>
      rw [hscope] at ha hb
      cases ha
      cases hb
      rfl
  | some scope =>
      rw [hscope] at ha hb
      simp only at ha hb
      split at ha
      · rename_i hempty
        rw [if_pos hempty] at hb
        cases ha
        cases hb
        rfl
      · rename_i hempty
        rw [if_neg hempty] at hb
        have heq := (Except.ok.inj ha).trans (Except.ok.inj hb).symm
        exact String.append_right_inj _ |>.mp heq

/-! ## Looking up -/

theorem get?_find {m : Memory} {now : Float} {full other : String} {e : Entry}
    (h : Table.get? (m.find now full).2 other = some e) : Table.get? m other = some e := by
  unfold Memory.find at h
  split at h
  · exact h
  · split at h
    · by_cases hother : full = other
      · subst hother
        rw [Table.get?_erase_self] at h
        cases h
      · rwa [Table.get?_erase_of_ne _ hother] at h
    · exact h

/-- A command to the server changes the server and nothing of what is kept in memory. Opening the link
changes neither. -/
theorem meets_onServer {α : Type} {address : Address} {way : Way} {x : Effect Host α}
    {P : Except Failure α → Server → Prop}
    (hx : ∀ h : Host, h.server = site.2.server → x.Meets h fun r after => P r after.server)
    (hfail : ∀ e, P (.error e) site.2.server) :
    (Site.onServer address way x).Meets site fun r after =>
      after.1.memory = site.1.memory ∧ P r after.2.server := by
  have hensure : (Effect.onPart (fun s : Site => (s.1.links, s.2))
      (fun t s => ({ s.1 with links := t.1 }, t.2)) (Links.ensure address way)).Meets site
        fun _ after => after.1.memory = site.1.memory ∧ after.2.server = site.2.server := by
    unfold Meets Links.ensure
    rw [outcome_onPart, outcome_make]
    dsimp only
    split
    · exact ⟨rfl, rfl⟩
    · split
      · exact ⟨rfl, rfl⟩
      · exact ⟨rfl, rfl⟩
  refine hensure.bind ?_ ?_
  · rintro _ after ⟨hmemory, hserver⟩
    exact ⟨hmemory, hx after.2 hserver⟩
  · rintro e after ⟨hmemory, hserver⟩
    exact ⟨hmemory, hserver ▸ hfail e⟩

/-- Looking into memory drops what has expired and nothing else. -/
theorem kept_find (full : String) : (Site.onMemory fun m now => m.find now full).Meets site fun _ after =>
    ∀ other value, (Table.get? after.1.memory other).map (·.value) = some value →
      (Table.get? site.1.memory other).map (·.value) = some value := by
  intro other value h
  rcases Option.map_eq_some_iff.mp h with ⟨e, he, rfl⟩
  rw [get?_find he]
  rfl

/-- Looking on the server changes nothing that is kept there. -/
theorem server_onServer {α : Type} {address : Address} {way : Way} {x : Effect Host α}
    (hx : Leaves Host.server x) :
    Leaves (fun site : Site => site.2.server) (Site.onServer address way x) := by
  intro site
  have hserver : (Site.onServer address way x).Meets site fun _ after =>
      after.1.memory = site.1.memory ∧ after.2.server = site.2.server :=
    meets_onServer (P := fun _ server => server = site.2.server) (fun h hh => (hx h).trans hh) fun _ => rfl
  exact hserver.2

/-- Looking up adds nothing to what is kept. -/
theorem kept_get (way : Way) (key : Json) : (c.get way key).Meets site fun _ after =>
    ∀ full value, c.kept after full = some value → c.kept site full = some value := by
  unfold get kept
  cases c.storage with
  | memory =>
      refine Meets.ofExcept_bind (fun full _ => ?_) fun e _ other value h => h
      refine (kept_find full).bind ?_ fun e after hafter => hafter
      intro r after hafter
      cases r <;> exact hafter
  | server address options =>
      have hserver : (Site.onServer address way do
          Host.get (← .ofExcept (c.fullKey key))).Meets site fun _ after =>
            after.2.server = site.2.server :=
        server_onServer (Leaves.ofExcept_bind fun full _ _ => rfl) site
      refine hserver.bind ?_ ?_
      · intro r after hafter
        have hkept : ∀ other value, (Table.get? after.2.server.texts other).map
            (fun e => Json.str e.value) = some value →
              (Table.get? site.2.server.texts other).map (fun e => Json.str e.value) = some value := by
          intro other value h
          rwa [hafter] at h
        cases r with
        | none => exact hkept
        | some text =>
            dsimp only
            split
            · exact hkept
            · exact hkept
      · intro e after hafter other value h
        rwa [hafter] at h

/-- Asking whether there is something under a key adds nothing either. -/
theorem kept_has (way : Way) (key : Json) : (c.has way key).Meets site fun _ after =>
    ∀ full value, c.kept after full = some value → c.kept site full = some value := by
  unfold has kept
  cases c.storage with
  | memory =>
      refine Meets.ofExcept_bind (fun full _ => ?_) fun e _ other value h => h
      unfold Meets
      rw [outcome_map]
      exact kept_find full
  | server address options =>
      have hserver : (Site.onServer address way do
          Host.has (← .ofExcept (c.fullKey key))).Meets site fun _ after =>
            after.2.server = site.2.server :=
        server_onServer (Leaves.ofExcept_bind fun full _ _ => rfl) site
      refine hserver.mono fun _ after hafter other value h => ?_
      rwa [hafter] at h

/-! ## Setting -/

/-- Setting a value sets it under its key, and leaves what is kept under other keys alone. If it fails
nothing is set. -/
theorem meets_put (way : Way) (key value ttl : Json) : (c.put way key value ttl).Meets site
    fun r after =>
      match r with
      | .ok _ => ∃ full, c.fullKey key = .ok full ∧ c.kept after full = some (c.form value) ∧
          ∀ other, full ≠ other → c.kept after other = c.kept site other
      | .error _ => c.kept after = c.kept site := by
  unfold put kept form
  cases c.storage with
  | memory =>
      dsimp only
      split
      · rfl
      · refine Meets.ofExcept_bind (fun seconds _ => Meets.ofExcept_bind (fun full hfull => ?_)
          fun e _ => rfl) fun e _ => rfl
        refine ⟨full, hfull, ?_, fun other hother => ?_⟩
        · show (Table.get? (Memory.put _ _ full value seconds) full).map _ = _
          rw [Memory.put, Table.get?_put_self]
          rfl
        · show (Table.get? (Memory.put _ _ full value seconds) other).map _ = _
          rw [Memory.put, Table.get?_put_of_ne _ _ hother]
  | server address options =>
      refine (meets_onServer (P := fun r server => match r with
        | .ok _ => ∃ full, c.fullKey key = .ok full ∧ (Table.get? server.texts full).map
              (fun e => Json.str e.value) = some (.str (Json.Style.stored.print value)) ∧
            ∀ other, full ≠ other → Table.get? server.texts other =
              Table.get? site.2.server.texts other
        | .error _ => server = site.2.server) (fun h hh => ?_) fun _ => rfl).mono ?_
      · dsimp only
        split
        · exact hh
        · refine Meets.ofExcept_bind (fun full hfull => Meets.ofExcept_bind (fun ms _ =>
            Meets.ofExcept_bind (fun more _ => ?_) fun e _ => hh) fun e _ => hh) fun e _ => hh
          refine ⟨full, hfull, ?_, fun other hother => ?_⟩
          · show (Table.get? (Table.put h.server.texts full _) full).map _ = _
            rw [Table.get?_put_self]
            rfl
          · show Table.get? (Table.put h.server.texts full _) other = _
            rw [Table.get?_put_of_ne _ _ hother, hh]
      · rintro (e | _) after ⟨_, hafter⟩
        · funext other
          dsimp only at hafter ⊢
          rw [hafter]
        · rcases hafter with ⟨full, hfull, hself, hothers⟩
          refine ⟨full, hfull, hself, fun other hother => ?_⟩
          rw [hothers other hother]

end FactIndex.Cache

namespace FactIndex

open FactIndex.Effect

variable {α β : Type}

/-! ## What is left alone -/

namespace KeyValue

/-- A view of the host that does not show which commands have been sent to the server. -/
def Host.IsQuiet (view : Host → β) : Prop := ∀ h name arguments,
  view { h with network := h.network.record ⟨"redis." ++ name, arguments⟩ } = view h

theorem Address.name_of_request (address : Address) {way : Way} {call : Call}
    (h : address.request way = .ok call) : call.name = "redis." ++ "connect" := by
  unfold Address.request at h
  revert h
  rcases address.fixedMembers with _ | fixed
  · nofun
  · rcases address.optionMembers with _ | more
    · nofun
    · show (if _ then (.error .badType : Except Failure Call) else _) = _ → _
      split
      · nofun
      · rintro ⟨⟩
        rfl

variable {view : Host → β}

theorem Host.IsQuiet.leaves_ensure (hview : Host.IsQuiet view) (address : Address) (way : Way) :
    Leaves (fun s : Links × Host => view s.2) (Links.ensure address way) := by
  intro s
  unfold Links.ensure
  rw [outcome_make]
  dsimp only
  split
  · rfl
  · split
    · rename_i call hcall
      obtain ⟨name, arguments⟩ := call
      cases address.name_of_request hcall
      exact hview s.2 "connect" arguments
    · rfl

/-- A command that only asks. -/
theorem Host.IsQuiet.leaves_look (hview : Host.IsQuiet view) (name : String) (arguments : List Json)
    (options : Members) (act : Float → Server → α) :
    Leaves view (Host.send (command name arguments options) fun now s => (act now s, s)) :=
  fun h => hview h name _

theorem Host.IsQuiet.server : Host.IsQuiet (fun h : Host => h.server) := fun _ _ _ => rfl

end KeyValue

namespace Cache

open FactIndex.KeyValue

variable {view : Host → β} {c : Cache} {way : Way}

theorem leaves_host_onServer (hview : Host.IsQuiet view) {address : Address} {x : Effect Host α}
    (hx : Leaves view x) : Leaves (fun site : Site => view site.2) (Site.onServer address way x) :=
  Leaves.bind (fun site => hview.leaves_ensure address way (site.1.links, site.2)) fun _ site => hx site.2

theorem leaves_host_has (hview : Host.IsQuiet view) (key : Json) :
    Leaves (fun site : Site => view site.2) (c.has way key) := by
  unfold has
  split
  · exact (Leaves.ofExcept _).bind fun _ => Leaves.map _ fun _ => rfl
  · exact leaves_host_onServer hview ((Leaves.ofExcept _).bind fun _ => hview.leaves_look _ _ _ _)

theorem leaves_host_get (hview : Host.IsQuiet view) (key : Json) :
    Leaves (fun site : Site => view site.2) (c.get way key) := by
  unfold get
  split
  · refine (Leaves.ofExcept _).bind fun _ => Leaves.bind (fun _ => rfl) fun r => ?_
    split
    · exact Leaves.pure _
    · exact Leaves.throw _
  · have hask : Leaves view (do Host.get (← .ofExcept (c.fullKey key))) :=
      (Leaves.ofExcept _).bind fun _ => hview.leaves_look _ _ _ _
    refine (leaves_host_onServer hview hask).bind fun r => ?_
    split
    · split
      · exact Leaves.pure _
      · exact Leaves.throw _
    · exact Leaves.throw _

/-- Setting a value changes nothing on the server but its texts. -/
theorem leaves_host_put (hview : Host.IsQuiet view)
    (htexts : ∀ (h : Host) texts, view { h with server := { h.server with texts } } = view h)
    (key value ttl : Json) : Leaves (fun site : Site => view site.2) (c.put way key value ttl) := by
  unfold put
  split
  · dsimp only
    split
    · exact Leaves.throw _
    · exact (Leaves.ofExcept _).bind fun _ => (Leaves.ofExcept _).bind fun _ _ => rfl
  · refine leaves_host_onServer hview ?_
    split
    · exact Leaves.throw _
    · refine (Leaves.ofExcept _).bind fun full => (Leaves.ofExcept _).bind fun milliseconds =>
        (Leaves.ofExcept _).bind fun more h => ?_
      exact (htexts { h with network := h.network.record _ } _).trans (hview h "set" _)

/-- Removing a value changes nothing on the server but what is under its key. -/
theorem leaves_host_delete (hview : Host.IsQuiet view) {key : Json}
    (hremove : ∀ full, c.fullKey key = .ok full → ∀ h : Host,
      view { h with server := h.server.remove full } = view h) :
    Leaves (fun site : Site => view site.2) (c.delete way key) := by
  have hthrow : ∀ found : Bool, Leaves (fun site : Site => view site.2)
      (if !found then throw (missing key) else pure PUnit.unit : Effect Site PUnit) := by
    intro found
    split
    · exact Leaves.throw _
    · exact Leaves.pure _
  unfold delete
  split
  · exact (Leaves.ofExcept _).bind fun _ => Leaves.bind (fun _ => rfl) hthrow
  · refine Leaves.bind (leaves_host_onServer hview ?_) fun found => hthrow found
    exact Leaves.ofExcept_bind fun full hfull => Leaves.bind (fun h =>
      (hremove full hfull { h with network := h.network.record _ }).trans (hview h "delete" _))
        fun _ => Leaves.pure _

end Cache

end FactIndex
