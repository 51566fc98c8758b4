import FactIndex.Cache.Basic
import FactIndex.Fact.Catalog
import FactIndex.Index.Settings
import FactIndex.Queue.Basic
import FactIndex.Search.Client
import FactIndex.Search.Query

/-!
# The store and its world

The store works on a world that changes: the search engine, the catalog, the cache, the queue and the
network. What does not change while it works is its deployment.

## Main definitions

* `Deployment`: the settings and the parts of a store.
* `World`: everything that changes.
* `Action`: a computation on a world.
* `ask`, `onCache`, `onQueue`, `numberOf`: how an action reaches the parts of the world.
-/

namespace FactIndex

/-- The settings and the parts of a store. The states of the search engine have type `σ`. -/
structure Deployment (σ : Type) where
  settings : Settings := {}
  client : SearchClient σ
  cache : Cache
  queue : Queue
  /-- Whether writes that cannot be done are put into the queue. Otherwise they are lost. -/
  isDeferring : Bool := true
  /-- Where deferred writes say that they come from. -/
  origin : String := ""
  /-- What another store answers to every query, if there is one. -/
  fallback : Option QueryResult := none

/-- Everything that changes. -/
structure World (σ : Type) where
  /-- The state of the search engine. -/
  engine : σ
  catalog : Catalog
  cache : Cache.State := {}
  queue : Queue.State := {}
  host : KeyValue.Host := {}
  /-- Whether the client of the search engine is open. -/
  isOpen : Bool := true

/-- A computation on a world. -/
abbrev Action (σ α : Type) := Effect (World σ) α

variable {σ α : Type}

/-- Sends a request to the search engine. An error is an answer like any other. -/
def ask (d : Deployment σ) (r : Request) : Action σ (Except ClientError Json) :=
  .make fun w =>
    let (answer, engine) := d.client.send r w.engine
    let network := w.host.network.record r.call
    (.ok answer, { w with engine, host := { w.host with network } })

/-- An operation on the cache. -/
def onCache (x : Effect Cache.Site α) : Action σ α :=
  .onPart (fun w => (w.cache, w.host)) (fun s w => { w with cache := s.1, host := s.2 }) x

/-- An operation on the queue. -/
def onQueue (x : Effect Queue.Site α) : Action σ α :=
  .onPart (fun w => (w.queue, w.host)) (fun s w => { w with queue := s.1, host := s.2 }) x

/-- The catalog. -/
def catalog : Action σ Catalog := .make fun w => (.ok w.catalog, w)

/-- The number of an entity or a property. -/
def numberOf (item : Numbered) : Action σ Int :=
  .make fun w =>
    let (n, catalog) := w.catalog.number item
    (.ok n, { w with catalog })

/-- The time. -/
def currentTime : Action σ Float := .make fun w => (.ok w.host.network.now, w)

end FactIndex
