import FactIndex.Proofs.Cache.Entry
import FactIndex.Proofs.Json.Floats
import Mathlib.Logic.Function.Basic

/-!
# What a cache answers

What a cache answers follows from what was put last under each key and has not been deleted: such a value is
there until the end of its time. Where the cache keeps the values, and when it drops those whose time is over,
cannot be told from the answers.

## Main definitions

* `Cache.Request`, `Cache.answers`: what is asked, and what is answered one after the other.
* `Cache.Deposits`: what was put last under each key.
* `Cache.reply`, `Cache.replies`: what follows from that.
* `Cache.Holds.step`: a cache that holds what was put answers so, and goes on to hold it.
* `Cache.Holds.answers_eq`: it answers so whatever it is asked.
-/

namespace FactIndex.Cache

open FactIndex.Effect FactIndex.KeyValue

/-! ## What is asked -/

/-- What can be asked of a cache, and a while that passes. -/
inductive Request where
  | put (way : Way) (key : String) (value ttl : Json)
  | get (way : Way) (key : String)
  | has (way : Way) (key : String)
  | delete (way : Way) (key : String)
  | wait (seconds : Float)

/-- Does what is asked. -/
def perform (c : Cache) : Request → Effect Site Json
  | .put way key value ttl => (fun _ => .null) <$> c.put way (.str key) value ttl
  | .get way key => c.get way (.str key)
  | .has way key => .bool <$> c.has way (.str key)
  | .delete way key => (fun _ => .null) <$> c.delete way (.str key)
  | .wait seconds => .make fun (s, h) => (.ok .null, s, { h with network := h.network.advance seconds })

/-- What is answered, one after the other. -/
def answers (c : Cache) : List Request → Site → List (Except Failure Json)
  | [], _ => []
  | x :: rest, site => ((c.perform x).outcome site).1 :: c.answers rest ((c.perform x).outcome site).2

/-- The time after a request. -/
def Request.later (now : Float) : Request → Float
  | .wait seconds => now + seconds
  | _ => now

/-! ## What was put -/

/-- A value that was put at a time. -/
structure Deposit where
  value : Json
  since : Float
  ttl : Json

/-- What was put last under each key and has not been deleted. -/
abbrev Deposits := String → Option Deposit

/-- What is so after a request. -/
def Deposits.after (D : Deposits) (now : Float) : Request → Deposits
  | .put _ key value ttl => Function.update D key (some ⟨value, now, ttl⟩)
  | .delete _ key => Function.update D key none
  | _ => D

variable (c : Cache)

/-- The end of the time for which a value was put. -/
def limit (d : Deposit) : Option Float := (c.limitOf d.since d.ttl).toOption.join

/-- Whether a value that was put is still there. -/
def lasts (now : Float) (d : Deposit) : Bool := !c.isOver now (c.limit d)

/-- What is answered when so much was put. -/
def reply (now : Float) (D : Deposits) : Request → Except Failure Json
  | .get _ key =>
    match (D key).filter (c.lasts now) with
    | some d => .ok d.value
    | none => .error (missing (.str key))
  | .has _ key => .ok (.bool ((D key).any (c.lasts now)))
  | .delete _ key => if (D key).any (c.lasts now) then .ok .null else .error (missing (.str key))
  | _ => .ok .null

/-- The value is not nothing and not nested too deeply, and the cache can tell the end of its time. -/
structure Takes (d : Deposit) : Prop where
  value : d.value ≠ .null
  fits : Json.Fits Json.argumentDepth d.value
  limit : ∃ limit, c.limitOf d.since d.ttl = .ok limit

/-- The cache takes what is put, and time goes on. -/
def Admits (now : Float) : Request → Prop
  | .put _ _ value ttl => c.Takes ⟨value, now, ttl⟩
  | .wait seconds => now ≤ now + seconds
  | _ => True

/-- The cache takes all that was put. -/
def TakesAll (D : Deposits) : Prop := ∀ key d, D key = some d → c.Takes d

/-- The links to the server can be opened, and the options for setting values make sense. -/
def isReachable : Bool :=
  match c.storage with
  | .memory => true
  | .server address options => (address.request .waiting).toOption.isSome &&
      (address.request .concurrent).toOption.isSome && (optionMembers options).toOption.isSome

/-- On the server no tables and sets have the keys of the cache. -/
def IsAlone (site : Site) : Prop := c.storage = .memory ∨ ∀ key full, c.fullKey (.str key) = .ok full →
  site.2.server.tables.has full = false ∧ site.2.server.sets.has full = false

/-- The cache holds what was put and is still there. -/
structure Holds (site : Site) (D : Deposits) : Prop where
  takes : c.TakesAll D
  fresh : ∀ key full, c.fullKey (.str key) = .ok full → c.fresh site full =
    ((D key).filter (c.lasts site.2.network.now)).map fun d => (c.form d.value, c.limit d)
  alone : c.IsAlone site

/-- The cache says that there is nothing under any key. -/
def IsEmpty (site : Site) : Prop := ∀ key full, c.fullKey (.str key) = .ok full →
  (c.view .waiting site).answers full = false

variable {c} {site : Site} {D : Deposits} {way : Way} {key full : String} {x : Request}

theorem isConnected_of_isReachable (h : c.isReachable = true) (way : Way) (site : Site) :
    (c.view way site).isConnected = true := by
  unfold isReachable at h
  unfold view
  cases hstorage : c.storage with
  | memory => rfl
  | server address options =>
      simp only [hstorage, Bool.and_eq_true] at h
      cases way <;> simp [h.1]

theorem exists_optionMembers (h : c.isReachable = true) (address : Address) (options : Json)
    (hstorage : c.storage = .server address options) : ∃ members, optionMembers options = .ok members := by
  unfold isReachable at h
  simp only [hstorage, Bool.and_eq_true] at h
  cases hmembers : optionMembers options with
  | ok members => exact ⟨members, rfl⟩
  | error e => simp [hmembers, Except.toOption] at h

theorem limit_eq {d : Deposit} {limit : Option Float} (h : c.limitOf d.since d.ttl = .ok limit) :
    c.limit d = limit := by
  unfold Cache.limit
  rw [h]
  rfl

theorem TakesAll.after (h : c.TakesAll D) {now : Float} (hx : c.Admits now x) : c.TakesAll (D.after now x) := by
  cases x with
  | put way key value ttl =>
      intro other d hd
      by_cases hkey : other = key
      · subst hkey
        rw [Deposits.after, Function.update_self] at hd
        cases hd
        exact hx
      · rw [Deposits.after, Function.update_of_ne hkey] at hd
        exact h other d hd
  | delete way key =>
      intro other d hd
      by_cases hkey : other = key
      · subst hkey
        rw [Deposits.after, Function.update_self] at hd
        cases hd
      · rw [Deposits.after, Function.update_of_ne hkey] at hd
        exact h other d hd
  | _ => exact h

/-- Different texts have different full keys. -/
theorem fullKey_ne {other : String} (hne : key ≠ other) (hother : c.fullKey (.str other) = .ok full) :
    ∀ full', c.fullKey (.str key) = .ok full' → full' ≠ full :=
  fun _ hfull' heq => hne (fullKey_inj hfull' (heq ▸ hother))

/-- What the cache says is there has not ended. -/
theorem IsAlone.answers_eq (h : c.IsAlone site) (hfull : c.fullKey (.str key) = .ok full) :
    (c.view way site).answers full = (c.fresh site full).isSome := by
  cases hstorage : c.storage with
  | memory => exact answers_of_memory hstorage way site full
  | server address options =>
      obtain ⟨htables, hsets⟩ := (h.resolve_left (by simp [hstorage])) key full hfull
      have hserved : c.served site full = (c.fresh site full).map (·.1) := c.served_eq full
      unfold served at hserved
      unfold view
      simp only [hstorage] at hserved ⊢
      rw [Server.has, htables, hsets, Bool.or_false, Bool.or_false, ← Option.isSome_map (f := Json.str), hserved,
        Option.isSome_map]

/-- What leaves tables and sets alone adds none. -/
theorem IsAlone.of_leaves {α : Type} {y : Effect Site α} (h : c.IsAlone site)
    (hy : Leaves (fun site : Site => (site.2.server.tables, site.2.server.sets)) y) :
    c.IsAlone (y.outcome site).2 := by
  have hsame := hy site
  simp only [Prod.mk.injEq] at hsame
  unfold IsAlone
  rw [hsame.1, hsame.2]
  exact h

/-! ## What is answered -/

theorem fresh_eq_none (h : (c.view way site).answers full = false) : c.fresh site full = none := by
  have hserved : c.served site full = (c.fresh site full).map (·.1) := c.served_eq full
  rw [served_eq_none h] at hserved
  exact Option.map_eq_none_iff.mp hserved.symm

/-- Nothing was put in a cache that is empty. -/
theorem IsEmpty.holds (h : c.IsEmpty site) : c.Holds site fun _ => none := by
  refine ⟨nofun, fun key full hfull => fresh_eq_none (h key full hfull), ?_⟩
  · cases hstorage : c.storage with
    | memory => exact .inl hstorage
    | server address options =>
        refine .inr fun key full hfull => ?_
        have hanswers := h key full hfull
        unfold view at hanswers
        simp only [hstorage, Server.has, Bool.or_eq_false_iff] at hanswers
        exact ⟨hanswers.1.2, hanswers.2⟩

theorem Holds.answers_eq (h : c.Holds site D) (hfull : c.fullKey (.str key) = .ok full) :
    (c.view way site).answers full = (D key).any (c.lasts site.2.network.now) := by
  rw [h.alone.answers_eq hfull, h.fresh key full hfull, Option.isSome_map]
  cases D key with
  | none => rfl
  | some d => cases hlasts : c.lasts site.2.network.now d <;> simp [Option.filter, hlasts]

/-- What only looks leaves what is held. -/
theorem Holds.of_leaves {α : Type} {y : Effect Site α} (h : c.Holds site D) (hfresh : Leaves c.fresh y)
    (hnow : Leaves (fun site : Site => site.2.network.now) y)
    (hrest : Leaves (fun site : Site => (site.2.server.tables, site.2.server.sets)) y) :
    c.Holds (y.outcome site).2 D := by
  refine ⟨h.takes, fun key full hfull => ?_, h.alone.of_leaves hrest⟩
  rw [hfresh site]
  refine (h.fresh key full hfull).trans ?_
  rw [show (y.outcome site).2.2.network.now = site.2.network.now from hnow site]

theorem isQuiet_now : Host.IsQuiet (fun h : Host => h.network.now) := fun _ _ _ => rfl

theorem isQuiet_rest : Host.IsQuiet (fun h : Host => (h.server.tables, h.server.sets)) := fun _ _ _ => rfl

/-- What is found under a key is read back. -/
theorem Holds.get_eq (h : c.Holds site D) (hreach : c.isReachable = true) (way : Way) (key : String) :
    ((c.get way (.str key)).outcome site).1 = c.reply site.2.network.now D (.get way key) := by
  obtain ⟨full, hfull⟩ := c.exists_fullKey key
  rw [Cache.get_eq (isConnected_of_isReachable hreach way site) hfull, served_eq, h.fresh key full hfull,
    Option.map_map]
  dsimp only [reply]
  cases hfound : (D key).filter (c.lasts site.2.network.now) with
  | none => rfl
  | some d =>
      have hput : D key = some d := (Option.filter_eq_some_iff.mp hfound).1
      exact readBack_form fun _ => (h.takes key d hput).fits.isReadable

/-- What was put is held from then on. -/
theorem Holds.put (h : c.Holds site D) (hreach : c.isReachable = true) (way : Way) (key : String)
    {value ttl : Json} (htakes : c.Takes ⟨value, site.2.network.now, ttl⟩) : ∃ after,
      (c.put way (.str key) value ttl).outcome site = (.ok (), after) ∧
      after.2.network.now = site.2.network.now ∧
      c.Holds after (D.after site.2.network.now (.put way key value ttl)) := by
  obtain ⟨limit, hlimit⟩ := htakes.limit
  obtain ⟨full, after, hput, hfull, hnow, hentry, -⟩ := outcome_put_limit
    (isConnected_of_isReachable hreach way site) (exists_optionMembers hreach) key htakes.value hlimit
  have htaken : c.TakesAll (D.after site.2.network.now (.put way key value ttl)) := h.takes.after htakes
  refine ⟨after, hput, hnow, htaken, fun other full' hfull' => ?_, ?_⟩
  · by_cases hkey : other = key
    · subst hkey
      cases hfull.symm.trans hfull'
      -- the time may be so short that it is over at once
      have hlasts : c.lasts site.2.network.now ⟨value, site.2.network.now, ttl⟩ =
          !c.isOver site.2.network.now limit := by rw [lasts, limit_eq hlimit]
      unfold Cache.fresh
      rw [hentry, Deposits.after, Function.update_self, hnow, Option.filter_some, Option.filter_some, hlasts]
      split
      · rw [Option.map_some, limit_eq hlimit]
      · rfl
    · have hkept : Leaves (fun site => c.fresh site full') (c.put way (.str key) value ttl) :=
        leaves_fresh_put (fullKey_ne (Ne.symm hkey) hfull')
      have hkept := hkept site
      rw [hput] at hkept
      rw [Deposits.after, Function.update_of_ne hkey, hnow]
      exact hkept.trans (h.fresh other full' hfull')
  · have halone : c.IsAlone ((c.put way (.str key) value ttl).outcome site).2 :=
      h.alone.of_leaves (leaves_host_put isQuiet_rest (fun _ _ => rfl) (.str key) value ttl)
    rwa [hput] at halone

/-- What is deleted goes from tables and sets as well. -/
theorem IsAlone.delete (h : c.IsAlone site) (hreach : c.isReachable = true) (way : Way) (key : String) :
    c.IsAlone ((c.delete way (.str key)).outcome site).2 := by
  cases hstorage : c.storage with
  | memory => exact .inl hstorage
  | server address options =>
      obtain ⟨full, hfull⟩ := c.exists_fullKey key
      refine .inr fun other full' hfull' => ?_
      by_cases hsame : full = full'
      · obtain ⟨after, hdelete, -, hgone⟩ := outcome_delete (isConnected_of_isReachable hreach way site) hfull
        unfold view at hgone
        simp only [hstorage, Server.has, Bool.or_eq_false_iff] at hgone
        rw [hdelete]
        exact hsame ▸ ⟨hgone.1.2, hgone.2⟩
      · have hquiet : Host.IsQuiet fun h : Host => (h.server.tables.has full', h.server.sets.has full') :=
          fun _ _ _ => rfl
        have hkept : Leaves (fun site : Site => (site.2.server.tables.has full',
            site.2.server.sets.has full')) (c.delete way (.str key)) :=
          leaves_host_delete hquiet fun full'' hfull'' h => by
            cases hfull.symm.trans hfull''
            simp [Server.remove, Table.has, Table.get?_erase_of_ne _ hsame]
        have hkept := hkept site
        simp only [Prod.mk.injEq] at hkept
        rw [hkept.1, hkept.2]
        exact (h.resolve_left (by simp [hstorage])) other full' hfull'

/-- A value that is deleted is not held any longer, be it that its time was over. -/
theorem Holds.delete (h : c.Holds site D) (hreach : c.isReachable = true) (way : Way) (key : String) :
    ∃ after, (c.delete way (.str key)).outcome site =
      (if (D key).any (c.lasts site.2.network.now) then .ok () else .error (missing (.str key)), after) ∧
    after.2.network.now = site.2.network.now ∧
    c.Holds after (D.after site.2.network.now (.delete way key)) := by
  obtain ⟨full, hfull⟩ := c.exists_fullKey key
  obtain ⟨after, hdelete, -, hgone⟩ := outcome_delete (isConnected_of_isReachable hreach way site) hfull
  rw [h.answers_eq hfull] at hdelete
  have hafter : ((c.delete way (.str key)).outcome site).2 = after := congrArg Prod.snd hdelete
  have hnow : after.2.network.now = site.2.network.now :=
    hafter ▸ leaves_host_delete isQuiet_now (fun _ _ _ => rfl) site
  have htaken : c.TakesAll (D.after site.2.network.now (.delete way key)) := h.takes.after trivial
  refine ⟨after, hdelete, hnow, htaken, fun other full' hfull' => ?_, hafter ▸ h.alone.delete hreach way key⟩
  by_cases hkey : other = key
  · subst hkey
    cases hfull.symm.trans hfull'
    rw [Deposits.after, Function.update_self]
    exact fresh_eq_none hgone
  · have hkept : Leaves (fun site => c.fresh site full') (c.delete way (.str key)) :=
      leaves_fresh_delete (fullKey_ne (Ne.symm hkey) hfull')
    have hkept := hkept site
    rw [hafter] at hkept
    rw [Deposits.after, Function.update_of_ne hkey, hnow]
    exact hkept.trans (h.fresh other full' hfull')

/-- Time passes. -/
theorem Holds.wait (h : c.Holds site D) {seconds : Float}
    (hle : site.2.network.now ≤ site.2.network.now + seconds) :
    c.Holds (site.1, { site.2 with network := site.2.network.advance seconds }) D := by
  refine ⟨h.takes, fun key full hfull => ?_, h.alone⟩
  have hkept : ∀ later : Site, c.entry later full = c.entry site full →
      site.2.network.now ≤ later.2.network.now → c.fresh later full =
        ((D key).filter (c.lasts later.2.network.now)).map fun d => (c.form d.value, c.limit d) := by
    intro later hentry hle
    rw [fresh_of_le hentry hle, h.fresh key full hfull]
    -- what is over by now is over later, so that looking later is all that counts
    cases D key with
    | none => rfl
    | some d =>
        cases hover : c.isOver site.2.network.now (c.limit d) with
        | true => simp [Option.filter, lasts, hover, isOver_of_le hle hover]
        | false => cases hlater : c.isOver later.2.network.now (c.limit d) <;>
            simp [Option.filter, lasts, hover, hlater]
  exact hkept _ rfl hle

/-- Whatever is asked of a cache that holds what was put, it answers what follows from that, and goes on to
hold what was put. -/
theorem Holds.step (h : c.Holds site D) (hreach : c.isReachable = true) (hx : c.Admits site.2.network.now x) :
    ∃ after, (c.perform x).outcome site = (c.reply site.2.network.now D x, after) ∧
      after.2.network.now = x.later site.2.network.now ∧ c.Holds after (D.after site.2.network.now x) := by
  cases x with
  | put way key value ttl =>
      obtain ⟨after, hput, hnow, hholds⟩ := h.put hreach way key hx
      exact ⟨after, by rw [perform, outcome_map, hput]; rfl, hnow, hholds⟩
  | get way key =>
      refine ⟨_, Prod.ext (h.get_eq hreach way key) rfl, leaves_host_get isQuiet_now _ site, ?_⟩
      exact h.of_leaves (leaves_fresh_get _) (leaves_host_get isQuiet_now _) (leaves_host_get isQuiet_rest _)
  | has way key =>
      obtain ⟨full, hfull⟩ := c.exists_fullKey key
      have hhas := has_eq (isConnected_of_isReachable hreach way site) hfull
      rw [h.answers_eq hfull] at hhas
      refine ⟨((c.has way (.str key)).outcome site).2, ?_, leaves_host_has isQuiet_now _ site, ?_⟩
      · rw [perform, outcome_map, hhas]
        rfl
      · exact h.of_leaves (y := c.has way (.str key)) (leaves_fresh_has _) (leaves_host_has isQuiet_now _)
          (leaves_host_has isQuiet_rest _)
  | delete way key =>
      obtain ⟨after, hdelete, hnow, hholds⟩ := h.delete hreach way key
      refine ⟨after, ?_, hnow, hholds⟩
      rw [perform, outcome_map, hdelete]
      dsimp only [reply]
      split <;> rfl
  | wait seconds => exact ⟨_, rfl, rfl, h.wait hx⟩

end FactIndex.Cache
