import FactIndex.Dispatch.Operation
import FactIndex.Index.Settings
import FactIndex.Cache.Basic
import FactIndex.Queue.Basic

/-!
# Loading providers

A provider is named by a path and is made from parameters, which are brought to the kinds that the
provider declares. Parameters that it does not declare are kept as they are.

## Main definitions

* `ProviderClass`: what a path stands for.
* `ProviderSpec`: how a provider is asked for: by name, or by name with parameters.
* `load`: a provider made from parameters.
* `Cache.ofLoaded`, `Queue.ofLoaded`: a cache and a queue on what was loaded.
-/

namespace FactIndex

open FactIndex.KeyValue

/-- What a path stands for. -/
structure ProviderClass where
  path : String
  name : String
  parameters : List Parameter := []
  /-- What every provider of the class holds at first. -/
  initial : Members := []

/-- A provider that has been made. -/
structure Loaded where
  path : String
  name : String
  /-- What it holds. -/
  attributes : Members

namespace ProviderClass

/-- A parameter that may be absent. -/
def maybe (name : String) (kind : Kind) : Parameter := ⟨name, .oneOf [kind], some .null⟩

/-- The parameters of a link to the key-value server. -/
def linkParameters : List Parameter :=
  [maybe "url" .text, maybe "host" .text, maybe "port" .integer, ⟨"db", .integer, some (.int 0)⟩,
    maybe "username" .text, maybe "password" .text, maybe "options" .table]

/-- More parameters of the clients of a provider. -/
def nativeParameters : Parameter := ⟨"nparams", .tableOf .text .any, some (.obj [])⟩

/-- All settings as a kind of argument. -/
def settingsModel : Model := ⟨"ElasticConfig", fun j => Settings.toJson <$> Settings.read j⟩

/-- The parameters of the store. -/
def storeParameters : List Parameter :=
  [⟨"hosts", .oneOf [.text, .listOf .text, .tableOf .text .any], some .null⟩,
    maybe "cloud_id" .text,
    ⟨"api_key", .oneOf [.text, .listOf .text], some .null⟩,
    ⟨"basic_auth", .oneOf [.text, .listOf .text], some .null⟩,
    maybe "verify_certs" .truth, maybe "ca_certs" .text, maybe "request_timeout" .float,
    ⟨"config", .oneOf [.text, .table, .record settingsModel], some .null⟩,
    ⟨"cache", .oneOf [.table, .text, .handle], some .null⟩,
    ⟨"queue", .oneOf [.table, .text, .handle], some .null⟩,
    maybe "entity_store" .unknown, maybe "fallback" .unknown,
    ⟨"origin", .text, some (.str "")⟩, maybe "client" .handle, nativeParameters]

/-- All classes. -/
def all : List ProviderClass :=
  [{ path := "semindex.cache.providers.memory", name := "Memory", initial := [("_db", .obj [])] },
    { path := "semindex.cache.providers.redis", name := "Redis"
      parameters := linkParameters ++ [nativeParameters] },
    { path := "semindex.queue.providers.memory", name := "Memory"
      initial := [("_ready", .obj []), ("_inflight", .obj [])] },
    { path := "semindex.queue.providers.redis", name := "Redis", parameters := linkParameters },
    { path := "semindex.store.providers.elasticsearch", name := "Elasticsearch"
      parameters := storeParameters },
    { path := "semindex._common.redis_provider", name := "RedisProvider"
      parameters := linkParameters },
    { path := "semindex.core._provider", name := "Provider" }]

/-- The groups that providers can be loaded from. -/
def groups : List String := ["semindex.cache", "semindex.queue", "semindex.store"]

/-- The paths that lead somewhere but to no provider. -/
def otherPaths : List String :=
  ["semindex", "semindex.core", "semindex.elastic", "semindex.ql", "semindex._common",
    "semindex.queue.providers._helper"] ++
    groups.flatMap fun g => [g, g ++ ".component", g ++ ".providers"]

end ProviderClass

/-- A provider made from parameters. -/
def load (path : String) (given : Members) : Except Failure Loaded := do
  match ProviderClass.all.find? fun c => c.path == path with
  | none =>
    if ProviderClass.otherPaths.contains path then
      .error (.load ("No Provider defined in " ++ path))
    else .error (.load ("Cannot import " ++ path))
  | some c =>
    let converted ← convertAll c.parameters (given.map fun m => (m.1, Argument.plain m.2))
    let defaults := c.parameters.map fun p => (p.name, p.default.getD .null)
    let attributes := Table.merge (("__type__", .str path) :: c.initial ++ defaults)
      (converted.map fun a => (a.1, a.2.value))
    return { path, name := c.name, attributes }

/-- How a provider is asked for: by the name alone, or with parameters. -/
structure ProviderSpec where
  type : Json
  parameters : Members
deriving DecidableEq

namespace ProviderSpec

/-- The parameters of a specification, none if they are absent or empty. -/
def parametersOf : Option Json → Except Failure Members
  | some value => if value.isGiven then value.paired else .ok []
  | none => .ok []

/-- Reads how a provider is asked for. -/
def read : Json → Except Failure ProviderSpec
  | .str name => .ok ⟨.str name, []⟩
  | .obj ms =>
    match Table.get? ms "type" with
    | some type => do return ⟨type, ← parametersOf (Table.get? ms "parameters")⟩
    | none => .error .noMember
  | _ => .error .badType

/-- Loads the provider from a group of providers. -/
def load (spec : ProviderSpec) (group : String) : Except Failure Loaded :=
  FactIndex.load (group ++ ".providers." ++ spec.type.plainText) spec.parameters

end ProviderSpec

namespace Loaded

/-- What the provider holds under a name. -/
def held (l : Loaded) (name : String) : Json := (Table.get? l.attributes name).getD .null

/-- Where the key-value server is. -/
def address (l : Loaded) : Address :=
  { url := l.held "url", host := l.held "host", portNumber := l.held "port",
    database := l.held "db", user := l.held "username",
    password := l.held "password", options := l.held "options" }

end Loaded

/-- A cache on a provider. -/
def Cache.ofLoaded (scope : Option String) (l : Loaded) : Cache :=
  { scope
    storage :=
      if l.name = "Redis" then .server l.address (l.held "nparams") else .memory }

/-- A cache on the provider that is asked for. -/
def Cache.ofSpec (scope : Option String) (spec : Json) : Except Failure Cache := do
  return Cache.ofLoaded scope (← (← ProviderSpec.read spec).load "semindex.cache")

/-- A queue on the provider that is asked for. -/
def Queue.ofSpec (name : String) (hidden : Float) (spec : Json) : Except Failure Queue := do
  let l ← (← ProviderSpec.read spec).load "semindex.queue"
  return { name, hidden, storage := if l.name = "Redis" then .server l.address else .memory }

end FactIndex
