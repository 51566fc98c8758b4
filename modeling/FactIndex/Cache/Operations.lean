import FactIndex.Cache.Basic
import FactIndex.Dispatch.Component

/-!
# The cache as a component

## Main definitions

* `Cache.interface`: the operations and their parameters.
* `Cache.call`: a call by name.
-/

namespace FactIndex.Cache

open FactIndex.KeyValue

/-- The key, which all operations but one have. -/
def keyParameter : Parameter := ⟨"key", .text, none⟩

/-- The parameters of setting a value. -/
def putParameters : List Parameter :=
  [keyParameter, ⟨"value", .any, none⟩, ⟨"ttl", .oneOf [.float], some .null⟩]

/-- The operations and their parameters. -/
def interface : Interface :=
  [("exists", [keyParameter]), ("get", [keyParameter]), ("put", putParameters),
    ("delete", [keyParameter]), ("close", [])]

/-- Makes the cache ready for an operation. -/
def connect (c : Cache) (way : Way) : Effect Site Unit :=
  match c.storage with
  | .memory => pure ()
  | .server address _ => Site.onServer address way (pure ())

/-- Runs an operation on arguments. -/
def run (c : Cache) (way : Way) (name : String) (given : Arguments) : Effect Site Json := do
  c.connect way
  let given ← .ofExcept (convertAll ((Table.get? interface name).getD []) given)
  match name with
  | "exists" => Json.bool <$> c.has way (← .ofExcept (given.need "key")).value
  | "get" => c.get way (← .ofExcept (given.need "key")).value
  | "put" =>
    let key ← .ofExcept (given.need "key")
    let value ← .ofExcept (given.need "value")
    c.put way key.value value.value (given.value "ttl")
    return .null
  | "delete" =>
    c.delete way (← .ofExcept (given.need "key")).value
    return .null
  | _ =>
    c.close way
    return .null

/-- Calls an operation by name. The answer comes with the context of the call. -/
def call (c : Option Cache) (way : Way) (name : String) (given : Arguments) (context : Json) :
    Effect Site (Json × Context) := do
  let (arguments, context) ← .ofExcept (interface.start c.isSome name given context)
  let result ← (c.getD {}).run way name arguments
  return (result, context)

end FactIndex.Cache
