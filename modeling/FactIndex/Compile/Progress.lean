import FactIndex.Store.Lookup

/-!
# The progress of a compilation

While a description is compiled, more comes to light than the query: what is wrong with the
description, the lookups that were made, and which fields negated conditions look at.

## Main definitions

* `Defect`: what can be wrong with a description without making it useless.
* `Progress`: what has come to light.
* `Compiling`: a computation on the world that also makes progress.
-/

namespace FactIndex

/-- What can be wrong with a description. The part that it concerns selects nothing. -/
inductive Defect where
  /-- The stored query of a concept is no description. -/
  | unreadable (query : String)
  /-- A concept that refers to itself, by way of others or directly. -/
  | circular (concept : Entity) (query : String)
  /-- An area that no property is compared with. -/
  | lonelyArea (query : String)
deriving DecidableEq

namespace Defect

/-- The code of a defect. -/
def code : Defect → String
  | .circular _ _ => "semindex-query-condition-circular"
  | .unreadable _ | .lonelyArea _ => "semindex-query-compile-error"

/-- The wording of a defect. -/
def message : Defect → String
  | .unreadable _ => "Invalid description"
  | .circular concept _ => "Concept " ++ concept.label ++ " refers to itself"
  | .lonelyArea _ => "Area comparison requires a property"

/-- The text of the description with the defect. -/
def query : Defect → String
  | .unreadable query | .circular _ query | .lonelyArea query => query

/-- The report on a defect. -/
def toMembers (e : Defect) : Members :=
  [("code", .str e.code), ("message", .str e.message), ("query", .str e.query)]

end Defect

/-- What has come to light, each list with the last one at the end. -/
structure Progress where
  defects : List Defect := []
  /-- The records of the lookups. -/
  records : List Members := []
  /-- The nodes that were visited, if they are recorded. -/
  nodes : List Members := []
  /-- The field of each negated condition, by its position in the tree. -/
  negated : Table (List Nat) String := []
  /-- The hashes of the concepts that are being expanded. -/
  expanding : List String := []
deriving DecidableEq

/-- A computation on a world that makes progress. -/
abbrev Compiling (σ α : Type) := Effect (World σ × Progress) α

namespace Compiling

variable {σ α : Type}

/-- An action, which makes no progress by itself. -/
def act (x : Action σ α) : Compiling σ α := .onPart (·.1) (fun w s => (w, s.2)) x

/-- The progress so far. -/
def progress : Compiling σ Progress := .make fun s => (.ok s.2, s)

/-- Makes progress. -/
def note (f : Progress → Progress) : Compiling σ Unit := .make fun s => (.ok (), (s.1, f s.2))

/-- Reports a defect. -/
def report (e : Defect) : Compiling σ Unit :=
  note fun p => { p with defects := p.defects ++ [e] }

/-- The clause that a lookup amounts to. -/
def lookUp (x : Action σ Resolved) : Compiling σ Json := do
  let r ← act x
  note fun p => { p with records := p.records ++ [r.record] }
  return r.clause

/-- Something done while a concept is being expanded. -/
def expandingOf (hash : String) (x : Compiling σ α) : Compiling σ α := do
  note fun p => { p with expanding := p.expanding ++ [hash] }
  let result ← Effect.attempt x
  note fun p => { p with expanding := p.expanding.dropLast }
  .ofExcept result

/-- Compiles from the beginning, and answers with the progress as well. -/
def start (x : Compiling σ α) : Action σ (α × Progress) :=
  .make fun w =>
    let (result, s) := x.outcome (w, {})
    (result.map fun a => (a, s.2), s.1)

end Compiling

end FactIndex
