import FactIndex.Json.Basic
import FactIndex.Json.Number
import FactIndex.KeyValue.Link

/-!
# The cache

The cache holds results of lookups, locks, and changes that wait to be written, some of them for a
limited time. It keeps them in memory or on the key-value server; the two answer alike. In memory a value
whose time is over is dropped when somebody looks for it.

## Main definitions

* `Cache.Memory`: the values in memory, with `Cache.Memory.find`, `Cache.Memory.put` and
  `Cache.Memory.remove`.
* `Cache`: the settings of a cache.
* `Cache.State`: what a cache holds itself.
* `Cache.has`, `Cache.get`, `Cache.put`, `Cache.delete`, `Cache.close`: the operations.
-/

namespace FactIndex.Cache

/-! ## The cache in memory -/

/-- A value with the end of its time. -/
structure Entry where
  value : Json
  expiry : Option Float := none
deriving DecidableEq

/-- Whether the time of an entry is over. -/
def Entry.hasExpired (now : Float) (e : Entry) : Bool :=
  match e.expiry with
  | some t => t < now
  | none => false

/-- Values under keys. -/
abbrev Memory := Table String Entry

namespace Memory

/-- The value under a key. An entry whose time is over is dropped. -/
def find (m : Memory) (now : Float) (key : String) : Option Json × Memory :=
  match Table.get? m key with
  | none => (none, m)
  | some e => if e.hasExpired now then (none, Table.erase m key) else (some e.value, m)

/-- Sets the value under a key, perhaps for a number of seconds only. -/
def put (m : Memory) (now : Float) (key : String) (value : Json) (seconds : Option Float) :
    Memory :=
  Table.put m key { value, expiry := seconds.map (now + ·) }

/-- Removes the value under a key. The answer tells whether there was one. -/
def remove (m : Memory) (now : Float) (key : String) : Bool × Memory :=
  match find m now key with
  | (none, m) => (false, m)
  | (some _, m) => (true, Table.erase m key)

end Memory

end FactIndex.Cache

namespace FactIndex

open FactIndex.KeyValue

/-! ## Either cache -/

/-- Where a cache keeps its values. -/
inductive CacheStorage where
  | memory
  /-- On the key-value server, with more options for setting a value. -/
  | server (address : Address) (options : Json)
deriving DecidableEq

/-- The settings of a cache. -/
structure Cache where
  /-- What stands before every key. -/
  scope : Option String := none
  storage : CacheStorage := .memory
deriving DecidableEq

namespace Cache

/-- What a cache holds itself. -/
structure State where
  memory : Memory := []
  links : Links := {}
deriving DecidableEq

/-- A cache, the network and the key-value server. -/
abbrev Site := State × Host

namespace Site

/-- A command to the server, sent once the link for the way is open. -/
def onServer {α : Type} (address : Address) (way : Way) (x : Effect Host α) : Effect Site α := do
  .onPart (fun s => (s.1.links, s.2)) (fun t s => ({ s.1 with links := t.1 }, t.2))
    (Links.ensure address way)
  .onPart (·.2) (fun h s => (s.1, h)) x

/-- An operation on the values in memory, at the time of the clock. -/
def onMemory {α : Type} (f : Memory → Float → α × Memory) : Effect Site α :=
  .make fun (s, h) =>
    let (answer, memory) := f s.memory h.network.now
    (.ok answer, { s with memory }, h)

end Site

/-- The key under which a value is kept. Without a scope only texts are keys. -/
def fullKey (c : Cache) (key : Json) : Except Failure String :=
  match c.scope, key with
  | some scope, key =>
    if scope = "" then
      match key with
      | .str s => .ok s
      | _ => .error .badType
    else .ok (scope ++ ":" ++ key.plainText)
  | none, .str s => .ok s
  | none, _ => .error .badType

/-- There is no value under the key. -/
def missing (key : Json) : Failure := .notFound ("Key " ++ key.display ++ " not found")

/-- Whether there is a value under the key. -/
def has (c : Cache) (way : Way) (key : Json) : Effect Site Bool := do
  match c.storage with
  | .memory =>
    let key ← .ofExcept (c.fullKey key)
    Option.isSome <$> Site.onMemory fun m now => m.find now key
  | .server address _ =>
    Site.onServer address way do Host.has (← .ofExcept (c.fullKey key))

/-- The value under the key. -/
def get (c : Cache) (way : Way) (key : Json) : Effect Site Json := do
  match c.storage with
  | .memory =>
    let full ← .ofExcept (c.fullKey key)
    match ← Site.onMemory fun m now => m.find now full with
    | some value => return value
    | none => throw (missing key)
  | .server address _ =>
    match ← Site.onServer address way do Host.get (← .ofExcept (c.fullKey key)) with
    | some text =>
      match Json.parse? Json.argumentDepth text with
      | some value => return value
      | none => throw .notJson
    | none => throw (missing key)

/-- A duration in seconds. Nothing, zero and what is empty mean that there is no limit. -/
def secondsOf (ttl : Json) : Except Failure (Option Float) :=
  if ttl.isGiven then
    match ttl with
    | .float x => .ok (some x)
    | .int n => .ok (some (Float.ofInt n))
    | _ => .error .badType
  else .ok none

/-- A duration in whole milliseconds. -/
def millisecondsOf (ttl : Json) : Except Failure (Option Int) :=
  if ttl.isGiven then
    match ttl with
    | .float x => some <$> Calendar.truncateFloat (x * 1000)
    | .int n => .ok (some (n * 1000))
    | .str _ => .error .badValue
    | _ => .error .badType
  else .ok none

/-- The options for setting a value. The time for which it is kept is not one of them. -/
def optionMembers : Json → Except Failure Members
  | .obj ms => if Table.has ms "px" then .error .badType else .ok ms
  | _ => .error .badType

/-- Sets the value under the key, perhaps for a limited time. Nothing is no value. -/
def put (c : Cache) (way : Way) (key value : Json) (ttl : Json := .null) : Effect Site Unit := do
  match c.storage with
  | .memory =>
    if value = .null then throw .badType
    let seconds ← .ofExcept (secondsOf ttl)
    let full ← .ofExcept (c.fullKey key)
    Site.onMemory fun m now => ((), m.put now full value seconds)
  | .server address options =>
    Site.onServer address way do
      if value = .null then throw .badType
      let full ← .ofExcept (c.fullKey key)
      let milliseconds ← .ofExcept (millisecondsOf ttl)
      Host.set full (Json.Style.stored.print value) milliseconds (← .ofExcept (optionMembers options))

/-- Removes the value under the key. -/
def delete (c : Cache) (way : Way) (key : Json) : Effect Site Unit := do
  let found ← match c.storage with
    | .memory => do
      let full ← .ofExcept (c.fullKey key)
      Site.onMemory fun m now => m.remove now full
    | .server address _ =>
      Site.onServer address way do
        let n ← Host.delete [← .ofExcept (c.fullKey key)]
        return n ≠ 0
  if !found then throw (missing key)

/-- Closes the link to the server. -/
def close (c : Cache) (way : Way) : Effect Site Unit :=
  match c.storage with
  | .memory => pure ()
  | .server address _ => do
    Site.onServer address way (pure ())
    .onPart (fun s => (s.1.links, s.2)) (fun t s => ({ s.1 with links := t.1 }, t.2))
      (Links.close way)

end Cache

end FactIndex
