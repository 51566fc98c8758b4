import FactIndex.Store.Connection

/-!
# Generations of indices

Each index has two generations, of which the alias names one. Setting up makes the first one if there is
none, a rollover moves the alias to the other one, and dropping removes both.

## Main definitions

* `Deployment.setup`, `Deployment.drop`, `Deployment.rollover`: the three operations.
-/

namespace FactIndex

/-- Both indices. -/
def IndexType.all : List String := [data, lookup]

namespace Deployment

variable {σ : Type}

/-- The change that makes an alias name an index. -/
def addAlias (index name : String) : Json :=
  .single "add" (.obj [("index", .str index), ("alias", .str name)])

/-- The change that makes an alias name an index no longer. -/
def removeAlias (index name : String) : Json :=
  .single "remove" (.obj [("index", .str index), ("alias", .str name)])

/-- Removes an index that has the name of an alias, because the alias could not be made. -/
def clearName (d : Deployment σ) (name : String) : Action σ Unit := do
  if ← d.indexExists name then
    if !(← d.aliasExists name) then
      let _ ← d.deleteIndex name

/-- Removes an index if there is one. -/
def removeIndex (d : Deployment σ) (name : String) : Action σ Unit := do
  if ← d.indexExists name then
    let _ ← d.deleteIndex name

/-- The generation that an index has, which is made if there is none. Of two the first one stays. -/
def activeVersion (d : Deployment σ) (type : String) : Action σ String := do
  let first := d.versionName type "v1"
  let second := d.versionName type "v2"
  if ← d.indexExists first then
    d.removeIndex second
    return first
  if ← d.indexExists second then return second
  let _ ← d.createIndex first type
  return first

/-- Makes an index and its alias. -/
def setupIndex (d : Deployment σ) (type : String) : Action σ String := do
  let name := d.indexName type
  d.clearName name
  let active ← d.activeVersion type
  d.updateAliases [addAlias active name]
  return active

/-- Makes both indices and their aliases. The answer is the generation that each one has. -/
def setup (d : Deployment σ) : Action σ (Table String String) :=
  IndexType.all.mapM fun type => do return (type, ← d.setupIndex type)

/-- Removes both generations of an index. -/
def dropIndex (d : Deployment σ) (type : String) : Action σ Unit := do
  for version in IndexType.versions do
    d.removeIndex (d.versionName type version)
  d.clearName (d.indexName type)
  d.releaseLock type

/-- Removes both indices. -/
def drop (d : Deployment σ) : Action σ Unit := do
  for type in IndexType.all do
    d.dropIndex type

/-- The generation beside a generation. -/
def otherVersion (version : String) : String := if version = "v1" then "v2" else "v1"

/-- Moves the alias of an index to a generation. The other generation is removed, and the answer is its
name if it was there. -/
def rollover (d : Deployment σ) (type version : String) : Action σ (Option String) := do
  if !IndexType.versions.contains version then throw (.unknownVersion version)
  let name := d.indexName type
  let new := d.versionName type version
  let old := d.versionName type (otherVersion version)
  if !(← d.indexExists new) then
    let _ ← d.createIndex new type
  let wasThere ← d.indexExists old
  let targets ← if wasThere then d.aliasTargets name else pure []
  let removal := if targets.contains old then [removeAlias old name] else []
  d.updateAliases (removal ++ [addAlias new name])
  if wasThere then
    let _ ← d.deleteIndex old
  d.releaseLock type
  return if wasThere then some old else none

end Deployment

end FactIndex
