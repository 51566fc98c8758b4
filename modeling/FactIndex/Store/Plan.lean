import FactIndex.Dispatch.Loader
import FactIndex.Index.Load
import FactIndex.Store.World

/-!
# Plans of stores

A plan says what a store is made of: its settings, its cache and its queue, and how to reach the search
engine. The cache and the queue are named after the indices, and are kept in memory unless the plan says
otherwise.

## Main definitions

* `StorePlan`: the plan of a store.
* `StorePlan.make`, `StorePlan.ofSpec`: the plan that parts, or parameters, amount to.
* `StorePlan.deployment`: the store itself, once it has a client.
-/

namespace FactIndex

/-- What a store is made of. -/
structure StorePlan where
  /-- The path of the provider. -/
  type : String := "semindex.store.providers.elasticsearch"
  settings : Settings
  cache : Cache
  queue : Queue
  origin : Json := .str ""
  /-- The parameters of the client of the search engine. -/
  clientParameters : Members := []
  /-- Whether it is said where the search engine is, or a client for it is given. -/
  hasAddress : Bool := false

namespace StorePlan

/-- How a part is asked for. Without a word it is kept in memory. -/
def partSpec (spec : Json) : Json := if spec.isGiven then spec else .str "memory"

/-- The cache of a store. -/
def cacheOf (s : Settings) (spec : Json) : Except Failure Cache :=
  Cache.ofSpec (some s.index.stem) (partSpec spec)

/-- The queue of a store. -/
def queueOf (s : Settings) (spec : Json) : Except Failure Queue :=
  Queue.ofSpec (s.index.stem ++ "-recovery") 300 (partSpec spec)

/-- The parameters of a store that are handed on to its client. -/
def clientNames : List String :=
  ["hosts", "cloud_id", "api_key", "basic_auth", "verify_certs", "ca_certs", "request_timeout"]

/-- The parameters of the client. Additional ones take the place of others. -/
def clientParametersOf (l : Loaded) : Members :=
  let given := clientNames.filterMap fun name =>
    let value := l.held name
    if value = .null then none else some (name, value)
  match l.held "nparams" with
  | .obj more => Table.merge given more
  | _ => given

/-- The plan that a provider of stores amounts to. -/
def ofLoaded (l : Loaded) : Except Failure StorePlan := do
  let settings ← Settings.load (l.held "config")
  return { type := l.path, settings
           cache := ← cacheOf settings (l.held "cache")
           queue := ← queueOf settings (l.held "queue")
           origin := l.held "origin"
           clientParameters := clientParametersOf l
           hasAddress := ["hosts", "cloud_id", "client"].any fun name => l.held name != .null }

/-- The plan that is asked for by the name of a provider and its parameters. -/
def ofSpec (spec : Json) : Except Failure StorePlan := do
  ofLoaded (← (← ProviderSpec.read spec).load "semindex.store")

/-- It has to be said where the search engine is. -/
def noAddress : Failure := .badRequest "Either hosts or cloud_id must be specified" []

/-- Whether a store of this plan can find the search engine. -/
def checkAddress (p : StorePlan) : Except Failure Unit :=
  if p.hasAddress then .ok () else .error noAddress

/-- The store, once it has a client. -/
def deployment {σ : Type} (p : StorePlan) (client : SearchClient σ)
    (fallback : Option QueryResult := none) : Deployment σ :=
  { settings := p.settings, client, cache := p.cache, queue := p.queue
    origin := p.origin.plainText, fallback }

end StorePlan

end FactIndex
