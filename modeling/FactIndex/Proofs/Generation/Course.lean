import FactIndex.Proofs.Cache.Entry
import FactIndex.Proofs.Generation.Setup
import FactIndex.Store.Operations
import FactIndex.Update.Generation
import Mathlib.Logic.Relation
/-!
# Generations in the course of time

A store that starts on an empty engine sets its indices up, writes, drops and moves them, and is being
rebuilt, in any order. All that time aliases and generations are in order, and what an operation that
succeeds leaves behind can be told from what it was asked for.

A rebuild holds a lock, which is a value in the cache. When it has been released there is nothing under
its key, and the cache says so. Releasing another lock does not bring it back, and neither does a request
to the search engine.

## Main definitions

* `Deployment.IsUnlocked`: the cache says that there is no lock.
* `Deployment.isUnlocked_releaseLock`: so it is after a release.
* `Deployment.isUnlocked_drop`, `Deployment.unlocks_rollover`: so it is after both indices have been
  dropped, and after an index has been moved to a generation.
* `Deployment.Proceeds`: one thing that happens to the world of a store.
* `Deployment.isPaired_of_proceeds`: aliases and generations at any time, and after each operation on them.
* `Deployment.call_setup_spares`: what setting up again leaves alone.
-/

namespace FactIndex

open FactIndex.Effect

section Locks

variable {σ : Type} {d : Deployment σ} {w w' : World σ} {type other : String}

namespace Deployment

/-- The cache says that an index is not locked. -/
def IsUnlocked (d : Deployment σ) (type : String) (w : World σ) : Prop :=
  ((d.isLocked type).outcome w).1 = .ok false

/-- What is seen of the cache. -/
def shown (d : Deployment σ) (w : World σ) : Cache.View := d.cache.view .waiting (w.cache, w.host)

/-- The key of a lock is a text. -/
theorem exists_fullKey_lockKey (d : Deployment σ) (type : String) :
    ∃ full, d.cache.fullKey (d.lockKey type) = .ok full :=
  d.cache.exists_fullKey ("lock:" ++ d.indexName type)

/-- Different locks have different keys. -/
theorem fullKey_lockKey_ne (hne : type ≠ other) {full full' : String}
    (hfull : d.cache.fullKey (d.lockKey type) = .ok full)
    (hfull' : d.cache.fullKey (d.lockKey other) = .ok full') : full ≠ full' := by
  rintro rfl
  have hsame := Cache.fullKey_inj hfull hfull'
  exact hne ((String.append_right_inj _).mp ((String.append_right_inj _).mp hsame))

theorem isUnlocked_iff {full : String} (hfull : d.cache.fullKey (d.lockKey type) = .ok full) :
    d.IsUnlocked type w ↔ (d.shown w).isConnected = true ∧ (d.shown w).answers full = false := by
  constructor
  · intro h
    have hlink : (d.shown w).isConnected = true := Cache.isConnected_of_has (Prod.ext h rfl)
    exact ⟨hlink, Except.ok.inj ((Cache.has_eq hlink hfull).symm.trans h)⟩
  · rintro ⟨hlink, hnone⟩
    exact (Cache.has_eq hlink hfull).trans (congrArg Except.ok hnone)

/-- What leaves the cache as it shows itself leaves an index unlocked. -/
theorem IsUnlocked.of_shown (h : d.IsUnlocked type w) (heq : d.shown w' = d.shown w) :
    d.IsUnlocked type w' := by
  obtain ⟨full, hfull⟩ := d.exists_fullKey_lockKey type
  rw [isUnlocked_iff hfull] at h ⊢
  rwa [heq]

/-- Releasing a lock succeeds if it was removed, or if there was none. -/
theorem delete_of_releaseLock {u : Unit} (h : (d.releaseLock type).outcome w = (.ok u, w')) :
    (((d.cache.delete .waiting (d.lockKey type)).outcome (w.cache, w.host)).1 = .ok () ∨
      ∃ text, ((d.cache.delete .waiting (d.lockKey type)).outcome (w.cache, w.host)).1 =
        .error (.notFound text)) ∧
      ((d.cache.delete .waiting (d.lockKey type)).outcome (w.cache, w.host)).2 = (w'.cache, w'.host) := by
  rcases hdelete : (d.cache.delete .waiting (d.lockKey type)).outcome (w.cache, w.host) with ⟨r, site⟩
  have hattempt : (Effect.attempt (onCache (d.cache.delete .waiting (d.lockKey type)) :
      Action σ Unit)).outcome w = (.ok r, { w with cache := site.1, host := site.2 }) := by
    unfold onCache
    rw [outcome_attempt, outcome_onPart, hdelete]
  unfold releaseLock at h
  rw [outcome_bind_of_ok hattempt] at h
  split at h
  · cases h
    exact ⟨.inl rfl, rfl⟩
  · cases h
    exact ⟨.inr ⟨_, rfl⟩, rfl⟩
  · cases h

/-- A lock that has been released is gone. -/
theorem isUnlocked_releaseLock {u : Unit} (h : (d.releaseLock type).outcome w = (.ok u, w')) :
    d.IsUnlocked type w' := by
  obtain ⟨full, hfull⟩ := d.exists_fullKey_lockKey type
  obtain ⟨hr, hsite⟩ := delete_of_releaseLock h
  obtain ⟨after, houtcome, hlink, hnone⟩ := Cache.outcome_delete (Cache.isConnected_of_delete hr) hfull
  rw [houtcome] at hsite
  cases hsite
  exact (isUnlocked_iff hfull).mpr ⟨hlink, hnone⟩

/-- Releasing another lock does not bring a lock back. -/
theorem IsUnlocked.releaseLock (hlock : d.IsUnlocked type w) (hne : type ≠ other) {u : Unit}
    (h : (d.releaseLock other).outcome w = (.ok u, w')) : d.IsUnlocked type w' := by
  obtain ⟨full, hfull⟩ := d.exists_fullKey_lockKey type
  obtain ⟨full', hfull'⟩ := d.exists_fullKey_lockKey other
  obtain ⟨hr, hsite⟩ := delete_of_releaseLock h
  obtain ⟨after, houtcome, hlink, -⟩ := Cache.outcome_delete (Cache.isConnected_of_delete hr) hfull'
  have hkept := Cache.answers_delete_of_ne .waiting hfull' (d.fullKey_lockKey_ne hne hfull hfull').symm
    (w.cache, w.host)
  rw [houtcome] at hsite hkept
  cases hsite
  exact (isUnlocked_iff hfull).mpr ⟨hlink, hkept.trans ((isUnlocked_iff hfull).mp hlock).2⟩

/-! ## Dropping -/

theorem leaves_shown_indexExists (d : Deployment σ) (name : String) : Leaves d.shown (d.indexExists name) := by
  refine Leaves.map _ (Leaves.bind (fun _ => rfl) fun r => ?_)
  split
  · exact Leaves.pure _
  · exact Leaves.throw _

theorem leaves_shown_aliasExists (d : Deployment σ) (name : String) : Leaves d.shown (d.aliasExists name) := by
  refine Leaves.map _ (Leaves.bind (fun _ => rfl) fun r => ?_)
  split
  · exact Leaves.pure _
  · exact Leaves.throw _

theorem leaves_shown_deleteIndex (d : Deployment σ) (name : String) : Leaves d.shown (d.deleteIndex name) := by
  refine Leaves.bind (fun _ => rfl) fun r => ?_
  split
  · exact Leaves.pure _
  · split
    · exact Leaves.pure _
    · exact Leaves.throw _

theorem leaves_shown_removeIndex (d : Deployment σ) (name : String) : Leaves d.shown (d.removeIndex name) := by
  refine (d.leaves_shown_indexExists name).bind fun isThere => ?_
  split
  · exact (d.leaves_shown_deleteIndex name).bind fun _ => Leaves.pure _
  · exact Leaves.pure _

theorem leaves_shown_clearName (d : Deployment σ) (name : String) : Leaves d.shown (d.clearName name) := by
  refine (d.leaves_shown_indexExists name).bind fun isThere => ?_
  split
  · refine (d.leaves_shown_aliasExists name).bind fun isAlias => ?_
    split
    · exact (d.leaves_shown_deleteIndex name).bind fun _ => Leaves.pure _
    · exact Leaves.pure _
  · exact Leaves.pure _

/-- Dropping an index ends with the release of its lock. -/
theorem exists_of_dropIndex {u : Unit} (h : (d.dropIndex type).outcome w = (.ok u, w')) :
    ∃ mid, d.shown mid = d.shown w ∧ (d.releaseLock type).outcome mid = (.ok (), w') := by
  unfold dropIndex at h
  obtain ⟨_, removed, hremoved, h⟩ := exists_of_bind_ok h
  obtain ⟨_, cleared, hcleared, h⟩ := exists_of_bind_ok h
  have hversions : Leaves d.shown (ForIn.forIn IndexType.versions PUnit.unit fun version _ => do
      d.removeIndex (d.versionName type version)
      return ForInStep.yield PUnit.unit) :=
    Leaves.forIn (fun version => (d.leaves_shown_removeIndex _).bind fun _ => Leaves.pure _) _
  replace hversions := hversions w
  have hname := d.leaves_shown_clearName (d.indexName type) removed
  rw [hremoved] at hversions
  rw [hcleared] at hname
  exact ⟨cleared, hname.trans hversions, h⟩

/-- No index is locked once both have been dropped, one after the other. -/
theorem isUnlocked_drop {u : Unit} (h : d.drop.outcome w = (.ok u, w')) :
    ∀ type ∈ IndexType.all, d.IsUnlocked type w' := by
  have hall : ∀ (types : List String) (w : World σ), (ForIn.forIn types PUnit.unit fun type _ => do
      d.dropIndex type
      return ForInStep.yield PUnit.unit).outcome w = (.ok PUnit.unit, w') → ∀ type,
        (type ∈ types ∨ d.IsUnlocked type w) → d.IsUnlocked type w' := by
    intro types
    induction types with
    | nil =>
        rintro w ⟨⟩ type (hmem | hlock)
        · cases hmem
        · exact hlock
    | cons first types ih =>
        intro w h type hwhen
        rw [List.forIn_cons, bind_assoc] at h
        obtain ⟨_, dropped, hdrop, h⟩ := exists_of_bind_ok h
        refine ih dropped h type ?_
        obtain ⟨mid, hshown, hrelease⟩ := exists_of_dropIndex hdrop
        rcases eq_or_ne type first with rfl | hne
        · exact .inr (isUnlocked_releaseLock hrelease)
        · refine hwhen.imp (fun hmem => (List.mem_cons.mp hmem).resolve_left hne) fun hlock => ?_
          exact (hlock.of_shown hshown).releaseLock hne hrelease
  obtain ⟨_, dropped, hdropped, h⟩ := exists_of_bind_ok h
  cases h
  exact fun type htype => hall _ w hdropped type (.inl htype)

/-! ## Moving -/

/-- Whenever an action succeeds there is no lock afterwards. -/
def Unlocks {α : Type} (d : Deployment σ) (type : String) (x : Action σ α) : Prop :=
  ∀ ⦃w a w'⦄, x.outcome w = (.ok a, w') → d.IsUnlocked type w'

theorem Unlocks.bind {α β : Type} {x : Action σ β} {f : β → Action σ α} (hf : ∀ b, d.Unlocks type (f b)) :
    d.Unlocks type (x >>= f) := by
  intro w a w' h
  obtain ⟨b, mid, -, h⟩ := exists_of_bind_ok h
  exact hf b h

theorem Unlocks.of_either {α β : Type} {p : Prop} [Decidable p] {x y : Action σ β} {f : β → Action σ α}
    (hf : ∀ b, d.Unlocks type (f b)) : d.Unlocks type (if p then x >>= f else y >>= f) := by
  split <;> exact Unlocks.bind hf

theorem Unlocks.of_maybe {α β : Type} {p : Prop} [Decidable p] {x : Action σ β} {y : Action σ α}
    (hy : d.Unlocks type y) : d.Unlocks type (if p then x >>= fun _ => y else y) := by
  split
  · exact Unlocks.bind fun _ => hy
  · exact hy

theorem unlocks_releaseLock {α : Type} (a : α) :
    d.Unlocks type (d.releaseLock type >>= fun _ => pure a) := by
  intro w b w' h
  obtain ⟨u, released, hrelease, h⟩ := exists_of_bind_ok h
  cases h
  exact isUnlocked_releaseLock hrelease

/-- Moving an index to a generation ends with the release of its lock. -/
theorem unlocks_rollover (version : String) : d.Unlocks type (d.rollover type version) := by
  unfold rollover
  exact Unlocks.of_maybe <| Unlocks.bind fun _ => Unlocks.of_maybe <| Unlocks.bind fun _ =>
    Unlocks.of_either fun _ => Unlocks.bind fun _ => Unlocks.of_maybe (unlocks_releaseLock _)

end Deployment

end Locks

variable {d : Deployment Cluster} {c : Cluster} {w₀ w w' : World Cluster} {type version : String}

/-- An index that has an alias is one of the two. -/
theorem Cluster.InOrder.mem_all (h : c.InOrder d) (hlive : c.targets (d.indexName type) ≠ []) :
    type ∈ IndexType.all := by
  by_contra hnot
  refine hlive (h.paired.others _ fun other hother heq => hnot ?_)
  exact d.indexName_inj.mp heq ▸ hother

namespace Deployment

/-! ## Operations -/

/-- An index without an alias is not moved. -/
theorem brings_checkIndex {α : Type} {post : Except Failure α → Cluster → Prop}
    (hclient : d.client = Cluster.client) {f : Unit → Action Cluster α}
    (next : c.targets (d.indexName type) ≠ [] → Brings (f ()) c post) (stop : ∀ e, post (.error e) c) :
    Brings (d.checkIndex type >>= f) c post := by
  unfold checkIndex
  dsimp only
  rw [bind_assoc]
  refine brings_aliasExists hclient ?_ stop
  cases hnone : (c.targets (d.indexName type)).isEmpty with
  | true => exact Brings.throw (stop _)
  | false =>
      refine next fun heq => ?_
      rw [heq] at hnone
      cases hnone

theorem run_setup (d : Deployment Cluster) (given : Arguments) : d.run "setup" given = (do
    checkOpen
    let _ ← Effect.ofExcept (convertAll [] given)
    Query.textTable <$> d.setup) := rfl

theorem run_drop (d : Deployment Cluster) (given : Arguments) : d.run "drop" given = (do
    checkOpen
    let _ ← Effect.ofExcept (convertAll [] given)
    d.drop
    return .null) := rfl

theorem run_rollover (d : Deployment Cluster) (given : Arguments) : d.run "rollover" given = (do
    checkOpen
    let given ← Effect.ofExcept (convertAll [⟨"type", .text, none⟩, ⟨"version", .text, none⟩] given)
    let type := (← Argument.value <$> Effect.ofExcept (given.need "type")).plainText
    d.checkIndex type
    Json.ofText? <$> do
      d.rollover type (← Argument.value <$> Effect.ofExcept (given.need "version")).plainText) := rfl

/-- Moving an index that has an alias. -/
theorem brings_checkedRollover (hclient : d.client = Cluster.client) (h : c.InOrder d) (type : String)
    (asked : Except Failure Argument) : Brings (do
        d.checkIndex type
        Json.ofText? <$> do d.rollover type (← Argument.value <$> Effect.ofExcept asked).plainText) c
      fun r after => after.InOrder d ∧ ∀ answer, r = .ok answer → ∀ a, asked = .ok a →
        type ∈ IndexType.all ∧ a.value.plainText ∈ IndexType.versions ∧
          Cluster.StandsFor d type a.value.plainText after := by
  refine brings_checkIndex hclient (fun hlive => ?_) fun e => ⟨h, fun _ => nofun⟩
  cases asked with
  | error e => exact Brings.throw ⟨h, fun _ => nofun⟩
  | ok a =>
      have htype := h.mem_all hlive
      rw [map_eq_pure_bind]
      refine (brings_rollover hclient h htype hlive a.value.plainText).bind (fun removed after hafter => ?_)
        fun e after hafter => ⟨hafter.1, fun _ => nofun⟩
      refine Brings.pure ⟨hafter.1, ?_⟩
      rintro _ - _ ⟨⟩
      exact ⟨htype, hafter.2 removed rfl⟩

/-- Every operation leaves aliases and generations in order. -/
theorem keeps_call (hclient : d.client = Cluster.client) (name : String) (given : Arguments)
    (context : Json) : Keeps (Cluster.InOrder d) (d.call name given context) := by
  have hkept := keptByDocuments_inOrder hclient
  have hsetup : Keeps (Cluster.InOrder d) d.setup := fun c hc =>
    (brings_setup hclient hc).mono fun _ _ hafter => hafter.1
  have hrun : ∀ given, Keeps (Cluster.InOrder d) (d.run name given) := by
    intro given
    refine Keeps.bind (Keeps.of_leaves fun _ => rfl) fun _ => (Keeps.ofExcept _).bind fun given => ?_
    dsimp only
    -- one case for each operation; only the fifth to the seventh change indices or aliases
    split
    · exact ((Keeps.ofExcept _).bind fun query => hkept.answer query).map _
    · exact (((Keeps.ofExcept _).map _).bind fun _ => (Keeps.ofExcept _).bind fun change =>
        hkept.safeReplicate change).map _
    · exact (((Keeps.ofExcept _).map _).bind fun _ => (Keeps.ofExcept _).bind fun e => hkept.create e).map _
    · exact (((Keeps.ofExcept _).map _).bind fun ids => hkept.delete _ _).map _
    · exact hsetup.map _
    · exact (keeps_drop hclient).bind fun _ => Keeps.pure _
    · exact ((Keeps.ofExcept _).map _).bind fun _ c hc =>
        (brings_checkedRollover hclient hc _ _).mono fun _ _ hafter => hafter.1
    · exact (hkept.runJobs _).bind fun _ => Keeps.pure _
    · exact hkept.close.bind fun _ => Keeps.pure _
  exact (Keeps.ofExcept _).bind fun _ => (hrun _).bind fun _ => Keeps.pure _

/-! ## What happens -/

/-- One thing that happens to the world of a store. -/
inductive Proceeds (d : Deployment Cluster) : World Cluster → World Cluster → Prop
  /-- An operation is called. -/
  | call (w : World Cluster) (name : String) (given : Arguments) (context : Json) :
      Proceeds d w ((d.call name given context).outcome w).2
  /-- A rebuild writes a change, whether the index is locked or not. -/
  | rebuild (w : World Cluster) (change : Change) : Proceeds d w ((d.replicate change).outcome w).2
  /-- A rebuild begins. -/
  | lock (w : World Cluster) (type : String) (version : Json) :
      Proceeds d w ((d.setLock type version).outcome w).2
  /-- A rebuild is over, or it is given up. -/
  | unlock (w : World Cluster) (type : String) : Proceeds d w ((d.releaseLock type).outcome w).2
  /-- Meanwhile anything may happen but to the indices and aliases of the engine. -/
  | meanwhile {w w' : World Cluster} (indices : w'.engine.indices = w.engine.indices)
      (aliases : w'.engine.aliases = w.engine.aliases) (candid : w'.engine.IsCandid) : Proceeds d w w'

/-- Without any index aliases and generations are in order. -/
theorem inOrder_of_empty (haliases : c.aliases = []) (hcandid : c.IsCandid) : c.InOrder d :=
  ⟨Cluster.isPaired_of_empty haliases, hcandid⟩

/-- Whatever happens leaves aliases and generations in order. -/
theorem Proceeds.inOrder (hclient : d.client = Cluster.client) (h : d.Proceeds w w')
    (hw : w.engine.InOrder d) : w'.engine.InOrder d := by
  cases h with
  | call name given context => exact (keeps_call hclient name given context).of_outcome hw
  | rebuild change => exact ((keptByDocuments_inOrder hclient).replicate change).of_outcome hw
  | lock type version => exact hw
  | unlock type => exact (Keeps.of_leaves (d.leaves_engine_releaseLock type)).of_outcome hw
  | meanwhile indices aliases candid =>
      exact ⟨hw.paired.congr aliases indices, candid⟩

/-- By induction on what has happened. -/
theorem inOrder_of_proceeds (hclient : d.client = Cluster.client) (haliases : w₀.engine.aliases = [])
    (hcandid : w₀.engine.IsCandid) (h : Relation.ReflTransGen d.Proceeds w₀ w) : w.engine.InOrder d := by
  induction h with
  | refl => exact inOrder_of_empty haliases hcandid
  | tail _ hstep ih => exact hstep.inOrder hclient ih

/-! ## What operations leave behind -/

/-- A result that is used was a success. -/
theorem exists_of_ofExcept_bind {α β : Type} {r : Except Failure α} {f : α → Action Cluster β} {b : β}
    (h : (Effect.ofExcept r >>= f).outcome w = (.ok b, w')) :
    ∃ a, r = .ok a ∧ (f a).outcome w = (.ok b, w') := by
  cases r with
  | error e => cases h
  | ok a => exact ⟨a, rfl, h⟩

/-- An operation that succeeds has been run. -/
theorem exists_of_call {name : String} {given : Arguments} {context : Json} {answer : Json × Context}
    (h : (d.call name given context).outcome w = (.ok answer, w')) :
    ∃ arguments, Store.interface.start true name given context = .ok (arguments, answer.2) ∧
      (d.run name arguments).outcome w = (.ok answer.1, w') := by
  obtain ⟨⟨arguments, context'⟩, hstart, h⟩ := exists_of_ofExcept_bind h
  obtain ⟨result, _, hrun, h⟩ := exists_of_bind_ok h
  cases h
  exact ⟨arguments, hstart, hrun⟩

/-- What has been run was run on arguments of the right kinds. -/
theorem exists_of_checkOpen {α β : Type} {r : Except Failure α} {f : α → Action Cluster β} {b : β}
    (h : (checkOpen >>= fun _ => Effect.ofExcept r >>= f).outcome w = (.ok b, w')) :
    ∃ a, r = .ok a ∧ (f a).outcome w = (.ok b, w') := by
  obtain ⟨_, opened, hopened, h⟩ := exists_of_bind_ok h
  obtain rfl : w = opened := congrArg Prod.snd hopened
  exact exists_of_ofExcept_bind h

/-- Arguments that are texts are handed on as they are. -/
theorem need_rollover {given arguments converted : Arguments} {context : Json} {context' : Context}
    (htype : Table.get? given "type" = some (.plain (.str type)))
    (hversion : Table.get? given "version" = some (.plain (.str version)))
    (hstart : Store.interface.start true "rollover" given context = .ok (arguments, context'))
    (hconverted : convertAll [⟨"type", .text, none⟩, ⟨"version", .text, none⟩] arguments = .ok converted) :
    converted.need "type" = .ok (.plain (.str type)) ∧
      converted.need "version" = .ok (.plain (.str version)) := by
  obtain ⟨htype', hversion'⟩ : Table.get? arguments "type" = some (.plain (.str type)) ∧
      Table.get? arguments "version" = some (.plain (.str version)) := by
    have hbind : ∃ extra, FactIndex.bind "rollover" [⟨"type", .text, none⟩, ⟨"version", .text, none⟩] given =
        .ok ⟨some "rollover",
          some ([("type", .plain (.str type)), ("version", .plain (.str version))] ++ extra)⟩ := by
      unfold FactIndex.bind
      simp only [List.mapM_cons, List.mapM_nil, htype, hversion]
      exact ⟨_, rfl⟩
    obtain ⟨extra, hbind⟩ := hbind
    have hinterface : Table.get? Store.interface "rollover" =
        some [⟨"type", .text, none⟩, ⟨"version", .text, none⟩] := rfl
    unfold Interface.start at hstart
    rw [hinterface] at hstart
    dsimp only at hstart
    rw [hbind] at hstart
    cases hcontext : Interface.contextOf context with
    | error e =>
        rw [hcontext] at hstart
        cases hstart
    | ok known =>
        rw [hcontext] at hstart
        cases hstart
        exact ⟨rfl, rfl⟩
  have hmerged : convertAll [⟨"type", .text, none⟩, ⟨"version", .text, none⟩] arguments =
      .ok ((arguments.put "type" (.plain (.str type))).put "version" (.plain (.str version))) := by
    unfold convertAll
    simp only [List.filterMapM_cons, htype', hversion']
    rfl
  rw [hmerged] at hconverted
  cases hconverted
  unfold Arguments.need
  rw [Table.get?_put_self, Table.get?_put_of_ne _ _ (by decide : "version" ≠ "type"), Table.get?_put_self]
  exact ⟨rfl, rfl⟩

/-- Setting up, as it is called. -/
theorem brings_call_setup (hclient : d.client = Cluster.client) (h : c.InOrder d) (given : Arguments)
    (context : Json) : Brings (d.call "setup" given context) c fun r after =>
      (∀ type ∈ IndexType.all, Cluster.Spares d type c after) ∧
      ∀ answer, r = .ok answer → ∃ table, answer.1 = Query.textTable table ∧
        ∀ type ∈ IndexType.all, ∃ version ∈ IndexType.versions,
          Table.get? table type = some (d.versionName type version) ∧
            Cluster.StandsFor d type version after := by
  have hsame : ∀ type ∈ IndexType.all, Cluster.Spares d type c c := fun _ _ =>
    (Cluster.Settles.refl h).spares
  refine Brings.ofExcept_bind (fun ⟨arguments, known⟩ => ?_) fun e => ⟨hsame, fun _ => nofun⟩
  dsimp only
  rw [run_setup, bind_assoc]
  refine (Brings.of_leaves (x := checkOpen) fun _ => rfl).bind ?_ ?_
  · rintro _ _ rfl
    rw [bind_assoc]
    refine Brings.ofExcept_bind (fun _ => ?_) fun e => ⟨hsame, fun _ => nofun⟩
    rw [bind_map_left]
    refine (brings_setup hclient h).bind (fun table after hafter => Brings.pure ⟨hafter.2.1, ?_⟩)
      fun e after hafter => ⟨hafter.2.1, fun _ => nofun⟩
    rintro _ ⟨⟩
    exact ⟨table, rfl, hafter.2.2 table rfl⟩
  · rintro e _ rfl
    exact ⟨hsame, fun _ => nofun⟩

/-- After an index has been moved, its alias stands for the generation that was asked for, and the index is
not locked. -/
theorem standsFor_rollover (hclient : d.client = Cluster.client) (hw : w.engine.InOrder d)
    {given : Arguments} {context : Json} (htype : Table.get? given "type" = some (.plain (.str type)))
    (hversion : Table.get? given "version" = some (.plain (.str version))) {answer : Json × Context}
    (h : (d.call "rollover" given context).outcome w = (.ok answer, w')) :
    type ∈ IndexType.all ∧ version ∈ IndexType.versions ∧ Cluster.StandsFor d type version w'.engine ∧
      d.IsUnlocked type w' := by
  obtain ⟨arguments, hstart, hrun⟩ := exists_of_call h
  rw [run_rollover] at hrun
  obtain ⟨converted, hconverted, hrun⟩ := exists_of_checkOpen hrun
  obtain ⟨hneed, hneed'⟩ := need_rollover htype hversion hstart hconverted
  rw [hneed, hneed'] at hrun
  have hafter := (brings_checkedRollover hclient hw type _ w rfl).of_outcome hrun
  obtain ⟨hall, hversions, hstands⟩ := hafter.2 _ rfl _ rfl
  refine ⟨hall, hversions, hstands, ?_⟩
  replace hrun : (d.checkIndex type >>= fun _ => Json.ofText? <$> d.rollover type version).outcome w =
    (.ok answer.1, w') := hrun
  obtain ⟨_, checked, -, hrun⟩ := exists_of_bind_ok hrun
  rw [map_eq_pure_bind] at hrun
  obtain ⟨removed, moved, hmove, hend⟩ := exists_of_bind_ok hrun
  obtain ⟨-, rfl⟩ := Prod.mk.inj hend
  exact unlocks_rollover version hmove

/-- After both indices have been dropped they are not locked. -/
theorem isUnlocked_call_drop {given : Arguments} {context : Json} {answer : Json × Context}
    (h : (d.call "drop" given context).outcome w = (.ok answer, w')) :
    ∀ type ∈ IndexType.all, d.IsUnlocked type w' := by
  obtain ⟨arguments, -, hrun⟩ := exists_of_call h
  rw [run_drop] at hrun
  obtain ⟨_, -, hrun⟩ := exists_of_checkOpen hrun
  obtain ⟨_, dropped, hdrop, hend⟩ := exists_of_bind_ok hrun
  obtain ⟨-, rfl⟩ := Prod.mk.inj hend
  exact isUnlocked_drop hdrop

/-- At any time aliases and generations are in order, if there were no aliases at the beginning. After
setting up, each alias stands for the generation that is answered, and after a rollover for the one that
was asked for; the other one is gone. After a rollover the index is not locked, and after dropping neither
of them is. -/
theorem isPaired_of_course (hclient : d.client = Cluster.client) (haliases : w₀.engine.aliases = [])
    (hcandid : w₀.engine.IsCandid) (h : Relation.ReflTransGen d.Proceeds w₀ w) :
    w.engine.IsPaired d ∧
      (∀ given context answer w', (d.call "setup" given context).outcome w = (.ok answer, w') →
        ∃ table, answer.1 = Query.textTable table ∧
          ∀ type ∈ IndexType.all, ∃ version ∈ IndexType.versions,
            Table.get? table type = some (d.versionName type version) ∧
              Cluster.StandsFor d type version w'.engine) ∧
      (∀ given context answer w' type version, Table.get? given "type" = some (.plain (.str type)) →
        Table.get? given "version" = some (.plain (.str version)) →
        (d.call "rollover" given context).outcome w = (.ok answer, w') →
          type ∈ IndexType.all ∧ version ∈ IndexType.versions ∧
            Cluster.StandsFor d type version w'.engine ∧ d.IsUnlocked type w') ∧
      ∀ given context answer w', (d.call "drop" given context).outcome w = (.ok answer, w') →
        ∀ type ∈ IndexType.all, d.IsUnlocked type w' := by
  have hw := inOrder_of_proceeds hclient haliases hcandid h
  refine ⟨hw.paired, fun given context answer w' hsetup => ?_, ?_,
    fun given context answer w' => isUnlocked_call_drop⟩
  · exact ((brings_call_setup hclient hw given context w rfl).of_outcome hsetup).2 answer rfl
  · exact fun given context answer w' type version htype hversion =>
      standsFor_rollover hclient hw htype hversion

/-! ### An index that is moved -/

private def movedDeployment : Deployment Cluster where
  client := Cluster.client
  cache := {}
  queue := {}

private def emptyWorld : World Cluster := { engine := {}, catalog := { next := 1 } }

private theorem isCandid_emptyWorld : emptyWorld.engine.IsCandid := ⟨nofun, nofun⟩

/-- A world in which the indices are set up. -/
private def readyWorld : World Cluster := ((movedDeployment.call "setup" [] .null).outcome emptyWorld).2

private theorem proceeds_readyWorld : Relation.ReflTransGen movedDeployment.Proceeds emptyWorld readyWorld :=
  .single (.call _ _ _ _)

/-- A rollover to the second generation of the documents. -/
private def secondGeneration : Arguments := [("type", .plain (.str "data")), ("version", .plain (.str "v2"))]

theorem isPaired_of_course_moved : ∃ answer moved,
    (movedDeployment.call "rollover" secondGeneration .null).outcome readyWorld = (.ok answer, moved) ∧
      Cluster.StandsFor movedDeployment "data" "v2" moved.engine ∧ movedDeployment.IsUnlocked "data" moved := by
  obtain ⟨-, -, hrollover, -⟩ := isPaired_of_course (d := movedDeployment) rfl rfl isCandid_emptyWorld
    proceeds_readyWorld
  have hok : ((movedDeployment.call "rollover" secondGeneration .null).outcome
      readyWorld).1.toOption.isSome = true := by decide +kernel
  rcases hmoved : (movedDeployment.call "rollover" secondGeneration .null).outcome readyWorld with
    ⟨e | answer, moved⟩
  · rw [hmoved] at hok
    cases hok
  · obtain ⟨-, -, hstands, hlock⟩ := hrollover _ _ _ _ _ _ rfl rfl hmoved
    exact ⟨answer, moved, rfl, hstands, hlock⟩

/-! ## Setting up again -/

/-- Setting up again does nothing to the generation that an alias stands for, nor to its documents, unless
it is the second one and there is a first one as well. Then the first one stays as it is, and the alias
stands for it. -/
theorem call_setup_spares (hclient : d.client = Cluster.client) (haliases : w₀.engine.aliases = [])
    (hcandid : w₀.engine.IsCandid) (h : Relation.ReflTransGen d.Proceeds w₀ w)
    (htype : type ∈ IndexType.all) (hversion : version ∈ IndexType.versions)
    (hactive : w.engine.targets (d.indexName type) = [d.versionName type version]) (given : Arguments)
    (context : Json) {r : Except Failure (Json × Context)}
    (hcall : (d.call "setup" given context).outcome w = (r, w')) :
    (version = "v1" ∨ w.engine.indices.has (d.versionName type "v1") = false →
      w'.engine.targets (d.indexName type) = [d.versionName type version] ∧
        w'.engine.indices.get? (d.versionName type version) =
          w.engine.indices.get? (d.versionName type version)) ∧
      (w.engine.indices.has (d.versionName type "v1") = true →
        w'.engine.indices.get? (d.versionName type "v1") =
          w.engine.indices.get? (d.versionName type "v1") ∧
        ∀ answer, r = .ok answer → Cluster.StandsFor d type "v1" w'.engine) := by
  have hw := inOrder_of_proceeds hclient haliases hcandid h
  obtain ⟨hspares, hanswer⟩ := (brings_call_setup hclient hw given context w rfl).of_outcome hcall
  refine ⟨fun hwhen => ?_, fun hfirst => ⟨(hspares type htype).first hfirst, fun answer hr => ?_⟩⟩
  · obtain ⟨htargets, hdocuments, -⟩ := (hspares type htype).active version hversion hactive hwhen
    exact ⟨htargets, hdocuments⟩
  · obtain ⟨table, -, hstands⟩ := hanswer answer hr
    obtain ⟨version', hversion', -, hstands⟩ := hstands type htype
    rcases IndexType.eq_or_eq_otherVersion (by decide : "v1" ∈ IndexType.versions) hversion' with
      rfl | rfl
    · exact hstands
    · -- the first generation cannot be gone
      have hgone := hstands.other
      have hthere : w'.engine.indices.has (d.versionName type "v1") = true := by
        unfold Table.has at hfirst ⊢
        rwa [(hspares type htype).first hfirst]
      rw [show otherVersion (otherVersion "v1") = "v1" from rfl, hthere] at hgone
      cases hgone

/-! ### A rebuild that is given up -/

/-- A change after which one entity has a value. -/
private def harbourChange : Change where
  subject := { title := "Harbour", space := 14 }
  subjectNumber := 1
  rows := [{ table := "data", rows := [⟨.insert, some 1, some 26, some (.number 6), fun _ => rfl⟩] }]

/-- A world in which the second generation of the documents is in use. -/
private def secondWorld : World Cluster :=
  ((movedDeployment.replicate harbourChange).outcome
    ((movedDeployment.call "rollover" secondGeneration .null).outcome readyWorld).2).2

private theorem proceeds_secondWorld :
    Relation.ReflTransGen movedDeployment.Proceeds emptyWorld secondWorld :=
  (proceeds_readyWorld.tail (.call _ _ _ _)).tail (.rebuild _ _)

/-- A world in which the first generation is being built again beside the second one. -/
private def rebuildingWorld : World Cluster :=
  ((movedDeployment.replicate harbourChange).outcome
    ((movedDeployment.setLock "data" (.str "v1")).outcome secondWorld).2).2

private theorem proceeds_rebuildingWorld :
    Relation.ReflTransGen movedDeployment.Proceeds emptyWorld rebuildingWorld :=
  (proceeds_secondWorld.tail (.lock _ _ _)).tail (.rebuild _ _)

theorem call_setup_spares_second :
    secondWorld.engine.targets "semindex-data" = ["semindex-data-v2"] ∧
      ((movedDeployment.call "setup" [] .null).outcome secondWorld).2.engine.targets "semindex-data" =
        ["semindex-data-v2"] ∧
      ((movedDeployment.call "setup" [] .null).outcome secondWorld).2.engine.indices.get? "semindex-data-v2" =
        secondWorld.engine.indices.get? "semindex-data-v2" ∧
      secondWorld.engine.indices.get? "semindex-data-v2" ≠ some [] := by
  have hactive : secondWorld.engine.targets "semindex-data" = ["semindex-data-v2"] := by decide +kernel
  have htype : "data" ∈ IndexType.all := by decide
  have hversion : "v2" ∈ IndexType.versions := by decide
  have hkept := (call_setup_spares (d := movedDeployment) rfl rfl isCandid_emptyWorld proceeds_secondWorld
    htype hversion hactive [] .null rfl).1 (.inr (by decide +kernel))
  exact ⟨hactive, hkept.1, hkept.2, by decide +kernel⟩

/-- While the first generation is being built again, setting up removes the second one, which is in use. -/
theorem not_setup_keeps_active : ¬ ∀ w : World Cluster,
    Relation.ReflTransGen movedDeployment.Proceeds emptyWorld w → ∀ type ∈ IndexType.all,
      ∀ version ∈ IndexType.versions,
        w.engine.targets (movedDeployment.indexName type) = [movedDeployment.versionName type version] →
          w.engine.indices.has (movedDeployment.versionName type version) = true →
          ((movedDeployment.call "setup" [] .null).outcome w).2.engine.targets
              (movedDeployment.indexName type) = [movedDeployment.versionName type version] ∧
            ((movedDeployment.call "setup" [] .null).outcome w).2.engine.indices.get?
                (movedDeployment.versionName type version) =
              w.engine.indices.get? (movedDeployment.versionName type version) := by
  intro h
  have hkept := (h rebuildingWorld proceeds_rebuildingWorld "data" (by decide) "v2" (by decide)
    (by decide +kernel) (by decide +kernel)).1
  have hmoved : ((movedDeployment.call "setup" [] .null).outcome rebuildingWorld).2.engine.targets
      (movedDeployment.indexName "data") = ["semindex-data-v1"] := by decide +kernel
  rw [hmoved] at hkept
  exact absurd hkept (by decide)

end Deployment

end FactIndex
