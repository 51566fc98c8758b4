import FactIndex.Proofs.Effect
import FactIndex.Proofs.Lookup.History

/-!
# What does not depend on the record of requests

The requests that have been sent are recorded, and nothing ever looks into the record. Two worlds that
differ in it alone answer alike and go on to differ in it alone.

The same is true of two lookups that differ in the body of their searches, if the search engine answers
both searches alike.

## Main definitions

* `World.unrecorded`: a world without the record of requests.
* `Lookup.sameUpTo_resolve`: lookups, however their searches are worded.
* `LookupCall.sameUpTo_run`: the four kinds of lookups.
-/

namespace FactIndex

open FactIndex.Effect FactIndex.KeyValue

variable {σ α : Type}

/-- The network without the record of requests. -/
def KeyValue.Host.unrecorded (h : Host) : Host :=
  { h with network := { h.network with calls := [] } }

/-- A world without the record of requests. -/
def World.unrecorded (w : World σ) : World σ := { w with host := w.host.unrecorded }

/-! ## The cache -/

namespace Cache

/-- A cache and the network without the record of requests. -/
def unrecorded (s : Site) : Site := (s.1, s.2.unrecorded)

theorem sameUpTo_send (call : Call) (act : Float → Server → α × Server) :
    SameUpTo Host.unrecorded (Host.send call act) (Host.send call act) := by
  intro h h' heq
  simp only [Host.unrecorded, Host.mk.injEq, Network.mk.injEq] at heq
  obtain ⟨⟨hnow, hissued, -⟩, hserver⟩ := heq
  unfold Host.send
  simp only [outcome_make, Host.unrecorded, Network.record, hnow, hissued, hserver, and_self]

theorem sameUpTo_ensure (address : Address) (way : Way) :
    SameUpTo (fun s : Links × Host => (s.1, s.2.unrecorded)) (Links.ensure address way)
      (Links.ensure address way) := by
  rintro ⟨links, host⟩ ⟨links', host'⟩ heq
  obtain ⟨rfl, hhost⟩ := Prod.mk.inj heq
  unfold Links.ensure
  rw [outcome_make, outcome_make]
  dsimp only
  cases links.isOpen way with
  | true => exact ⟨rfl, heq⟩
  | false =>
      cases address.request way with
      | error e => exact ⟨rfl, heq⟩
      | ok call => exact ⟨rfl, Prod.ext rfl hhost⟩

theorem sameUpTo_onServer {address : Address} {way : Way} {x : Effect Host α}
    (hx : SameUpTo Host.unrecorded x x) :
    SameUpTo unrecorded (Site.onServer address way x) (Site.onServer address way x) := by
  refine (SameUpTo.onPart (sameUpTo_ensure address way) (fun s t h => ?_)
    fun s t a b h hab => ?_).bind fun _ => SameUpTo.onPart hx (fun s t h => ?_) fun s t a b h hab => ?_
  · obtain ⟨hstate, hhost⟩ := Prod.ext_iff.mp h
    exact Prod.ext (congrArg State.links hstate) hhost
  · obtain ⟨hstate, hhost⟩ := Prod.ext_iff.mp h
    obtain ⟨hlinks, hhost'⟩ := Prod.ext_iff.mp hab
    have hstate' := congr (congrArg (fun (u : State) l => { u with links := l }) hstate) hlinks
    exact Prod.ext hstate' hhost'
  · exact (Prod.ext_iff.mp h).2
  · exact Prod.ext (Prod.ext_iff.mp h).1 hab

theorem sameUpTo_onMemory (f : Memory → Float → α × Memory) :
    SameUpTo unrecorded (Site.onMemory f) (Site.onMemory f) := by
  rintro ⟨state, host⟩ ⟨state', host'⟩ h
  obtain ⟨rfl, hhost⟩ := Prod.mk.inj h
  have hnow : host.network.now = host'.network.now := by
    have hnow := congrArg (fun h : Host => h.network.now) hhost
    exact hnow
  unfold Site.onMemory
  rw [outcome_make, outcome_make]
  dsimp only
  rw [hnow]
  exact ⟨rfl, Prod.ext rfl hhost⟩

theorem sameUpTo_get (c : Cache) (way : Way) (key : Json) :
    SameUpTo unrecorded (c.get way key) (c.get way key) := by
  unfold get
  cases c.storage with
  | memory =>
      refine (SameUpTo.ofExcept _).bind fun full => (sameUpTo_onMemory _).bind fun r => ?_
      cases r with
      | none => exact SameUpTo.throw _
      | some value => exact SameUpTo.pure _
  | server address options =>
      have hget : SameUpTo Host.unrecorded (do Host.get (← .ofExcept (c.fullKey key)))
          (do Host.get (← .ofExcept (c.fullKey key))) :=
        (SameUpTo.ofExcept _).bind fun _ => sameUpTo_send _ _
      refine (sameUpTo_onServer hget).bind fun r => ?_
      cases r with
      | none => exact SameUpTo.throw _
      | some text =>
          dsimp only
          split
          · exact SameUpTo.pure _
          · exact SameUpTo.throw _

theorem sameUpTo_put (c : Cache) (way : Way) (key value ttl : Json) :
    SameUpTo unrecorded (c.put way key value ttl) (c.put way key value ttl) := by
  unfold put
  cases c.storage with
  | memory =>
      dsimp only
      split
      · exact SameUpTo.throw _
      · exact (SameUpTo.ofExcept _).bind fun _ => (SameUpTo.ofExcept _).bind fun _ =>
          sameUpTo_onMemory _
  | server address options =>
      refine sameUpTo_onServer ?_
      split
      · exact SameUpTo.throw _
      · exact (SameUpTo.ofExcept _).bind fun _ => (SameUpTo.ofExcept _).bind fun _ =>
          (SameUpTo.ofExcept _).bind fun _ => sameUpTo_send _ _

end Cache

/-! ## Requests -/

theorem sameUpTo_onCache {x : Effect Cache.Site α} (hx : SameUpTo Cache.unrecorded x x) :
    SameUpTo World.unrecorded (onCache x : Action σ α) (onCache x) := by
  refine SameUpTo.onPart hx (fun w w' h => ?_) fun w w' a b h hab => ?_
  · exact congrArg (fun w : World σ => (w.cache, w.host)) h
  · have hworld := congr (congrArg (fun (w : World σ) (s : Cache.Site) =>
      { w with cache := s.1, host := s.2 }) h) hab
    exact hworld

/-- Two requests that are answered alike. -/
theorem sameUpTo_ask {d : Deployment σ} {r r' : Request}
    (h : ∀ s, d.client.send r s = d.client.send r' s) :
    SameUpTo World.unrecorded (ask d r) (ask d r') := by
  intro w w' heq
  have hengine : w.engine = w'.engine := by
    have hengine := congrArg World.engine heq
    exact hengine
  rw [outcome_ask, outcome_ask]
  unfold World.asked
  rw [hengine, h]
  exact ⟨rfl, congrArg (fun w : World σ => { w with engine := (d.client.send r' w'.engine).2 }) heq⟩

namespace Deployment

variable (d : Deployment σ)

theorem sameUpTo_cached (key : Json) :
    SameUpTo World.unrecorded (d.cached? key) (d.cached? key) := by
  refine (sameUpTo_onCache (d.cache.sameUpTo_get _ _)).attempt.bind fun r => ?_
  split
  · exact SameUpTo.pure _
  · exact SameUpTo.pure _
  · exact SameUpTo.throw _

theorem sameUpTo_demand (r : Request) : SameUpTo World.unrecorded (d.demand r) (d.demand r) := by
  refine (sameUpTo_ask fun _ => rfl).bind fun answer => ?_
  split
  · exact SameUpTo.pure _
  · exact SameUpTo.throw _

/-- Searches that are answered alike, however they are worded. -/
theorem sameUpTo_search (index : String) {body body' : Members}
    (h : ∀ s, d.client.send (.search index (body.map fun m => (optionName m.1, m.2))) s =
      d.client.send (.search index (body'.map fun m => (optionName m.1, m.2))) s) :
    SameUpTo World.unrecorded (d.search index body) (d.search index body') := by
  refine (sameUpTo_ask h).bind fun answer => ?_
  split
  · exact (SameUpTo.ofExcept _).bind fun _ => SameUpTo.pure _
  · exact SameUpTo.pure _
  · exact SameUpTo.throw _

end Deployment

/-! ## Lookups -/

namespace Lookup

variable {d : Deployment σ}

theorem sameUpTo_storeList (id : String) (ids : List Json) :
    SameUpTo World.unrecorded (storeList d id ids) (storeList d id ids) :=
  SameUpTo.bind ((d.sameUpTo_demand _).bind fun _ => SameUpTo.pure _) fun _ =>
    SameUpTo.bind ((d.sameUpTo_demand _).bind fun _ => SameUpTo.pure _) fun _ => SameUpTo.pure _

theorem sameUpTo_remember (l : Lookup) (count : Int) (name : String) (numbers : Json) :
    SameUpTo World.unrecorded (remember d l count name numbers) (remember d l count name numbers) :=
  sameUpTo_onCache (d.cache.sameUpTo_put _ _ _ _)

theorem sameUpTo_keep (l : Lookup) (found : Found) :
    SameUpTo World.unrecorded (l.keep d found) (l.keep d found) := by
  unfold keep
  dsimp only
  split
  · exact (sameUpTo_storeList _ _).bind fun _ => (sameUpTo_remember _ _ _ _).bind fun _ =>
      SameUpTo.pure _
  · split
    · exact (sameUpTo_remember _ _ _ _).bind fun _ => SameUpTo.pure _
    · exact SameUpTo.pure _

/-- Lookups whose searches are answered alike. -/
theorem sameUpTo_resolve (l : Lookup) (body : Members)
    (h : ∀ s, d.client.send (.search (d.indexName IndexType.data)
        (l.body.map fun m => (Deployment.optionName m.1, m.2))) s =
      d.client.send (.search (d.indexName IndexType.data)
        (body.map fun m => (Deployment.optionName m.1, m.2))) s) :
    SameUpTo World.unrecorded (l.resolve d) (({ l with body } : Lookup).resolve d) := by
  have hfind : SameUpTo World.unrecorded (l.find d) (({ l with body } : Lookup).find d) :=
    (d.sameUpTo_search _ h).bind fun _ => (SameUpTo.ofExcept _).bind fun _ => SameUpTo.pure _
  have hmaterialize : SameUpTo World.unrecorded (l.materialize d)
      (({ l with body } : Lookup).materialize d) :=
    hfind.bind fun _ => sameUpTo_keep l _
  unfold resolve
  refine (d.sameUpTo_cached l.key).bind fun remembered => ?_
  cases remembered with
  | none => exact hmaterialize
  | some value =>
      dsimp only
      split
      · exact hmaterialize
      · exact SameUpTo.ofExcept _

end Lookup

/-- A lookup does the same wherever nothing but the record of requests differs. -/
theorem LookupCall.sameUpTo_run {d : Deployment σ} (call : LookupCall) :
    SameUpTo World.unrecorded (call.run d) (call.run d) := by
  have hresolved : ∀ (l : Lookup) (field name title : String), SameUpTo World.unrecorded
      (d.resolved l field name title) (d.resolved l field name title) := fun l _ _ _ =>
    (l.sameUpTo_resolve l.body fun _ => rfl).bind fun _ => SameUpTo.pure _
  cases call with
  | plain key field params => exact hresolved _ _ _ _
  | chain property text field params => exact hresolved _ _ _ _
  | concept c number description params =>
      exact (SameUpTo.ofExcept _).bind fun _ => hresolved _ _ _ _
  | inverse key field params =>
      show SameUpTo World.unrecorded (d.lookupInverse key field params)
        (d.lookupInverse key field params)
      unfold Deployment.lookupInverse
      split
      · exact SameUpTo.pure _
      · exact hresolved _ _ _ _

end FactIndex
